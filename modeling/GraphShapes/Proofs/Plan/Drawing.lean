import GraphShapes.Proofs.Cursor.Allotted
import GraphShapes.Proofs.Plan.Drawn

/-!
# Drawing a plan

Drawing a plan at a place of a tree adds its sites to those that are drawn already, and nothing of
what it adds is there before (`Draws`). For a place behind which nothing is drawn that is plain; for
the supply of a splitter it holds because supplies are drawn all at once: as long as a splitter is
not drawn, no part of its supply is (`Whole`), except while that supply is being drawn. There the
numbers of the splitters help: what is drawn meanwhile belongs to splitters with smaller numbers
(`Site.Below`), so it cannot come back to this one.

The rule for inputs in a row is `Draws.append`, that for an operator over them `Draws.operator`, and
that for a splitter `Draws.splitter`. With them `draws_plan` goes through a plan, given that the
supplies of the splitters that it reads are drawn, and `exists_draws_supply` through the splitters.
-/

namespace GraphShapes

open Plan (siteAt sitesFrom readSplitters)

namespace Site

/-- The supply that a site belongs to. A splitter belongs to its own. -/
def home : Site → Option SplitterId
  | splitter s => some s
  | operator tree _ => tree

/-- The site belongs to a splitter with a number below the bound. -/
def Below (bound : SplitterId) (y : Site) : Prop := ∃ s < bound, y.home = some s

/-- The site stands at a path of a tree or behind it. -/
def Behind (tree : Option SplitterId) (path : List Nat) (y : Site) : Prop :=
  ∃ rest, y = .operator tree (path ++ rest)

theorem Below.mono {bound bound' : SplitterId} (hle : bound ≤ bound') {y : Site}
    (h : y.Below bound) : y.Below bound' := by
  obtain ⟨s, hs, hy⟩ := h
  exact ⟨s, Nat.lt_of_lt_of_le hs hle, hy⟩

/-- The sites behind an input of an operator are behind the operator. -/
theorem Behind.of_snoc {tree : Option SplitterId} {path : List Nat} {i : Nat} {y : Site}
    (h : y.Behind tree (path ++ [i])) : y.Behind tree path := by
  obtain ⟨rest, rfl⟩ := h
  exact ⟨i :: rest, by rw [List.append_assoc]; rfl⟩

/-- Behind different inputs of an operator are different sites. -/
theorem Behind.unique {tree : Option SplitterId} {path : List Nat} {i j : Nat} {y : Site}
    (hi : y.Behind tree (path ++ [i])) (hj : y.Behind tree (path ++ [j])) : i = j := by
  obtain ⟨rest, rfl⟩ := hi
  obtain ⟨rest', hrest⟩ := hj
  simp only [operator.injEq, true_and, List.append_assoc, List.append_cancel_left_eq,
    List.singleton_append, List.cons.injEq] at hrest
  exact hrest.1

/-- Behind the input of an operator is not the operator itself. -/
theorem Behind.ne {tree : Option SplitterId} {path : List Nat} {i : Nat} {y : Site}
    (h : y.Behind tree (path ++ [i])) : y ≠ .operator tree path := by
  obtain ⟨rest, rfl⟩ := h
  simp

theorem Behind.not_below {tree : Option SplitterId} {path : List Nat} {bound : SplitterId}
    (htree : ∀ s, tree = some s → bound ≤ s) {y : Site} (h : y.Behind tree path) :
    ¬y.Below bound := by
  rintro ⟨s, hs, hy⟩
  obtain ⟨rest, rfl⟩ := h
  exact Nat.not_lt.2 (htree s hy) hs

end Site

/-- Of the splitters below the bound nothing is drawn in part: a splitter is drawn as soon as
something of its supply is. -/
def Whole (bound : SplitterId) (sites : List Site) : Prop :=
  ∀ y ∈ sites, ∀ s < bound, y.home = some s → .splitter s ∈ sites

variable (ss : Splitters) (p : Plan)

/-- How often a splitter is an input of the sites. -/
def Site.uses (s : SplitterId) (sites : List Site) : Nat :=
  (sites.flatMap (Site.inputs ss p)).count (.splitter s)

/-- How often a splitter is read by the supplies among the sites. -/
def Site.reads (s : SplitterId) (sites : List Site) : Nat :=
  ((sites.filterMap (Site.supply? ss)).flatMap readSplitters).count s

/-- New sites have been drawn behind the others so that the targets are drawn, which bring so many
readers with them, and have these numbers. What is new leads to a target, and belongs to what the
targets may call their own or to splitters below the bound. -/
structure Adds (bound : SplitterId) (targets : List Site) (readers : List SplitterId)
    (Own : Site → Prop) (sites new : List Site) (g : PlanGraph) (numbers : List Nat) : Prop where
  drawn : Drawn ss p (sites ++ new) g
  whole : Whole bound (sites ++ new)
  mem : ∀ x ∈ targets, x ∈ sites ++ new
  numbers_eq : numbers = targets.map (sites ++ new).idxOf
  homes : ∀ y ∈ new, Own y ∨ y.Below bound
  leads : ∀ y ∈ new, ∃ x ∈ targets, y.LeadsTo ss p x
  uses : ∀ s, Site.uses ss p s new + targets.count (.splitter s) =
    readers.count s + Site.reads ss s new

/-- Wherever nothing of its own is drawn yet, the drawing adds what it takes for the targets. -/
def Draws (bound : SplitterId) (targets : List Site) (readers : List SplitterId)
    (Own : Site → Prop) (draw : PlanGraph → PlanGraph × List Nat) : Prop :=
  ∀ ⦃sites : List Site⦄ ⦃g : PlanGraph⦄, Drawn ss p sites g → Whole bound sites →
    (∀ y ∈ sites, ¬Own y) →
    ∃ new, Adds ss p bound targets readers Own sites new (draw g).1 (draw g).2

/-- A drawing of one thing. -/
def Plan.drawOne (draw : Plan.Drawing) (g : PlanGraph) : PlanGraph × List Nat :=
  ((draw g).1, [(draw g).2])

/-- The drawing adds what it takes for a plan at a path of a tree. -/
abbrev DrawsAt (bound : SplitterId) (tree : Option SplitterId) (path : List Nat) (q : Plan)
    (draw : Plan.Drawing) : Prop :=
  Draws ss p bound [q.siteAt tree path] q.readSplitters (Site.Behind tree path) (Plan.drawOne draw)

variable {ss : Splitters} {p : Plan} {bound : SplitterId} {Own Own' : Site → Prop}
  {targets targets' : List Site} {readers readers' : List SplitterId}

namespace Site

theorem uses_append (s : SplitterId) (sites sites' : List Site) :
    uses ss p s (sites ++ sites') = uses ss p s sites + uses ss p s sites' := by
  rw [uses, List.flatMap_append, List.count_append, uses, uses]

theorem count_splitter (s t : SplitterId) : [splitter s].count (splitter t) = [s].count t := by
  rw [List.count_singleton, List.count_singleton]
  simp

theorem reads_append (s : SplitterId) (sites sites' : List Site) :
    reads ss s (sites ++ sites') = reads ss s sites + reads ss s sites' := by
  rw [reads, List.filterMap_append, List.flatMap_append, List.count_append, reads, reads]

end Site

theorem Whole.snoc {sites : List Site} {x : Site} (h : Whole bound sites)
    (hx : ∀ s < bound, x.home = some s → .splitter s ∈ sites ++ [x]) :
    Whole bound (sites ++ [x]) :=
  List.forall_mem_append.2
    ⟨fun y hy s hs hhome => List.mem_append_left _ (h y hy s hs hhome),
      List.forall_mem_singleton.2 hx⟩

/-- Once a splitter is drawn behind its supply, what has been drawn of the supply does no harm. -/
theorem Whole.splitter {s : SplitterId} {sites new : List Site} (h : Whole bound sites)
    (hnew : Whole s (sites ++ new)) (hhomes : ∀ y ∈ new, y.home = some s ∨ y.Below s) :
    Whole bound (sites ++ new ++ [.splitter s]) := by
  have hlast : ∀ {y : Site}, y.home = some s → ∀ t, y.home = some t →
      .splitter t ∈ sites ++ new ++ [.splitter s] := by
    intro y hs t ht
    obtain rfl := Option.some.inj (hs.symm.trans ht)
    exact List.mem_append_right _ (List.mem_singleton_self _)
  refine List.forall_mem_append.2 ⟨fun y hy t ht hhome => ?_, ?_⟩
  · rcases List.mem_append.1 hy with hold | hadded
    · exact List.mem_append_left _ (List.mem_append_left _ (h y hold t ht hhome))
    · rcases hhomes y hadded with hs | ⟨t', ht', hhome'⟩
      · exact hlast hs t hhome
      · obtain rfl := Option.some.inj (hhome.symm.trans hhome')
        exact List.mem_append_left _ (hnew y hy t ht' hhome)
  · exact List.forall_mem_singleton.2 fun t _ hhome => hlast rfl t hhome

/-- One more site, behind all that it takes for its inputs. -/
theorem Adds.site {bound' : SplitterId} {sites new : List Site} {g : PlanGraph}
    {numbers : List Nat} {x : Site}
    (h : Adds ss p bound (x.inputs ss p) readers Own sites new g numbers)
    (hfresh : x ∉ sites ++ new) (hwhole : Whole bound' (sites ++ new ++ [x]))
    (hhomes : ∀ y ∈ new, Own' y ∨ y.Below bound') (hx : Own' x ∨ x.Below bound')
    (huses : ∀ s, readers.count s + [x].count (.splitter s) =
      readers'.count s + Site.reads ss s [x]) :
    Adds ss p bound' [x] readers' Own' sites (new ++ [x]) (g.site ss p (sites ++ new) x)
      [g.size] := by
  constructor
  case drawn =>
    rw [← List.append_assoc]
    exact h.drawn.site hfresh h.mem
  case whole => rwa [← List.append_assoc]
  case mem => exact List.forall_mem_singleton.2 (by simp)
  case numbers_eq =>
    rw [← List.append_assoc, List.map_singleton, List.idxOf_append_of_notMem hfresh, h.drawn.size]
    simp
  case homes => exact List.forall_mem_append.2 ⟨hhomes, List.forall_mem_singleton.2 hx⟩
  case leads =>
    simp only [List.mem_singleton, exists_eq_left]
    refine List.forall_mem_append.2 ⟨fun y hy => ?_, List.forall_mem_singleton.2 .refl⟩
    obtain ⟨c, hc, hlead⟩ := h.leads y hy
    exact hlead.tail hc
  case uses =>
    intro s
    -- the new site adds one edge for each of its inputs, and one reader if it is a reader
    have hold := h.uses s
    have hlast := huses s
    have hinputs : Site.uses ss p s [x] = (x.inputs ss p).count (.splitter s) := by
      rw [Site.uses, List.flatMap_singleton]
    rw [Site.uses_append, Site.reads_append, hinputs]
    omega

namespace Draws

/-- Nothing to draw. -/
theorem nil : Draws ss p bound [] [] Own fun g => (g, []) := by
  intro sites g hdrawn hwhole _
  refine ⟨[], ?_, ?_, nofun, rfl, nofun, nofun, fun _ => rfl⟩
  · rwa [List.append_nil]
  · rwa [List.append_nil]

theorem mono {draw : PlanGraph → PlanGraph × List Nat}
    (h : Draws ss p bound targets readers Own draw)
    (hown : ∀ y, Own y → Own' y) : Draws ss p bound targets readers Own' draw := by
  intro sites g hdrawn hwhole hfree
  obtain ⟨new, hnew⟩ := h hdrawn hwhole fun y hy => mt (hown y) (hfree y hy)
  exact ⟨new, { hnew with homes := fun y hy => (hnew.homes y hy).imp_left (hown y) }⟩

/-- One thing after another. -/
theorem append {draw draw' : PlanGraph → PlanGraph × List Nat}
    (h : Draws ss p bound targets readers Own draw)
    (h' : Draws ss p bound targets' readers' Own' draw')
    (hfresh : ∀ y, Own' y → ¬Own y ∧ ¬y.Below bound) :
    Draws ss p bound (targets ++ targets') (readers ++ readers') (fun y => Own y ∨ Own' y)
      fun g => ((draw' (draw g).1).1, (draw g).2 ++ (draw' (draw g).1).2) := by
  intro sites g hdrawn hwhole hfree
  obtain ⟨new, hnew⟩ := h hdrawn hwhole fun y hy => mt .inl (hfree y hy)
  -- what the second drawing may call its own is not drawn by the first one either
  have hfree' : ∀ y ∈ sites ++ new, ¬Own' y := by
    intro y hy hown
    rcases List.mem_append.1 hy with hy | hy
    · exact hfree y hy (.inr hown)
    · exact (hnew.homes y hy).elim (hfresh y hown).1 (hfresh y hown).2
  obtain ⟨new', hnew'⟩ := h' hnew.drawn hnew.whole hfree'
  refine ⟨new ++ new', ?_⟩
  have hassoc : sites ++ (new ++ new') = sites ++ new ++ new' := (List.append_assoc ..).symm
  constructor
  case drawn => exact hassoc ▸ hnew'.drawn
  case whole => exact hassoc ▸ hnew'.whole
  case mem =>
    rw [hassoc]
    exact List.forall_mem_append.2
      ⟨fun x hx => List.mem_append_left _ (hnew.mem x hx), hnew'.mem⟩
  case numbers_eq =>
    show (draw g).2 ++ (draw' (draw g).1).2 = _
    rw [hassoc, List.map_append, hnew'.numbers_eq, hnew.numbers_eq]
    refine congrArg (· ++ _) (List.map_congr_left fun x hx => ?_)
    rw [List.idxOf_append_of_mem (hnew.mem x hx)]
  case homes =>
    exact List.forall_mem_append.2
      ⟨fun y hy => (hnew.homes y hy).imp_left .inl, fun y hy => (hnew'.homes y hy).imp_left .inr⟩
  case leads =>
    refine List.forall_mem_append.2 ⟨fun y hy => ?_, fun y hy => ?_⟩
    · obtain ⟨x, hx, hlead⟩ := hnew.leads y hy
      exact ⟨x, List.mem_append_left _ hx, hlead⟩
    · obtain ⟨x, hx, hlead⟩ := hnew'.leads y hy
      exact ⟨x, List.mem_append_right _ hx, hlead⟩
  case uses =>
    intro s
    have huses := hnew.uses s
    have huses' := hnew'.uses s
    rw [Site.uses_append, Site.reads_append, List.count_append, List.count_append]
    omega

/-- An operator, once its inputs are drawn. -/
theorem operator {tree : Option SplitterId} {path : List Nat}
    {draw : PlanGraph → PlanGraph × List Nat}
    (h : Draws ss p bound ((Site.operator tree path).inputs ss p) readers Own draw)
    (hown : ∀ y, Own y → y.Behind tree path ∧ y ≠ .operator tree path)
    (htree : ∀ s, tree = some s → bound ≤ s) :
    Draws ss p bound [.operator tree path] readers (Site.Behind tree path) (Plan.drawOne fun g =>
      (draw g).1.operator ((Site.operator tree path).label ss p) (draw g).2) := by
  intro sites g hdrawn hwhole hfree
  have hhere : (Site.operator tree path).Behind tree path := ⟨[], by rw [List.append_nil]⟩
  obtain ⟨new, hnew⟩ := h hdrawn hwhole fun y hy => mt (fun hy => (hown y hy).1) (hfree y hy)
  -- what its inputs add stands behind them or in trees of their splitters, so it is not there
  have hfresh : Site.operator tree path ∉ sites ++ new := by
    intro hmem
    rcases List.mem_append.1 hmem with hmem | hmem
    · exact hfree _ hmem hhere
    · exact (hnew.homes _ hmem).elim (fun hy => (hown _ hy).2 rfl) (hhere.not_below htree)
  have hwhole' : Whole bound (sites ++ new ++ [.operator tree path]) :=
    hnew.whole.snoc fun s hs hhome => absurd ⟨s, hs, hhome⟩ (hhere.not_below htree)
  have hsite := hnew.site hfresh hwhole'
    (fun y hy => (hnew.homes y hy).imp_left fun hy => (hown y hy).1) (.inl hhere) fun _ => rfl
  rw [PlanGraph.site, ← hnew.numbers_eq] at hsite
  exact ⟨new ++ [.operator tree path], hsite⟩

/-- A splitter that is drawn already. -/
theorem splitter_of_mem {s : SplitterId} {draw : Plan.Drawing} {sites : List Site} {g : PlanGraph}
    (hdrawn : Drawn ss p sites g) (hwhole : Whole bound sites) (hmem : .splitter s ∈ sites) :
    Adds ss p bound [.splitter s] [s] Own sites []
      (Plan.drawOne (Plan.drawSplitter s (some draw)) g).1
      (Plan.drawOne (Plan.drawSplitter s (some draw)) g).2 := by
  have hshared := hdrawn.shared?_eq s
  rw [if_pos hmem] at hshared
  have hdraw : Plan.drawSplitter s (some draw) g = (g, sites.idxOf (.splitter s)) := by
    rw [Plan.drawSplitter, hshared]
  rw [Plan.drawOne, hdraw]
  constructor
  case drawn => rwa [List.append_nil]
  case whole => rwa [List.append_nil]
  case mem => exact List.forall_mem_singleton.2 (by rwa [List.append_nil])
  case numbers_eq => rw [List.append_nil]; rfl
  case homes => exact nofun
  case leads => exact nofun
  case uses =>
    intro t
    show 0 + [Site.splitter s].count (.splitter t) = [s].count t + 0
    rw [Site.count_splitter, Nat.zero_add, Nat.add_zero]

/-- A splitter: after its supply, if it is not drawn yet. -/
theorem splitter {s : SplitterId} {supply : Plan} {draw : Plan.Drawing}
    (h : DrawsAt ss p s (some s) [] supply draw) (hsupply : ss[s]? = some supply) (hs : s < bound) :
    Draws ss p bound [.splitter s] [s] Own (Plan.drawOne (Plan.drawSplitter s (some draw))) := by
  intro sites g hdrawn hwhole _
  by_cases hmem : Site.splitter s ∈ sites
  · exact ⟨[], splitter_of_mem hdrawn hwhole hmem⟩
  have hshared := hdrawn.shared?_eq s
  rw [if_neg hmem] at hshared
  have hinputs : (Site.splitter s).inputs ss p = [supply.siteAt (some s) []] := by
    rw [Site.inputs, hsupply]
    rfl
  -- where the splitter is not drawn, no part of its supply is
  have hfree : ∀ y ∈ sites, ¬y.Behind (some s) [] := by
    rintro y hy ⟨rest, rfl⟩
    exact hmem (hwhole _ hy s hs rfl)
  obtain ⟨new, hnew⟩ := h hdrawn
    (fun y hy t ht hhome => hwhole y hy t (Nat.lt_trans ht hs) hhome) hfree
  -- nor does its supply draw it, since that reads only splitters with smaller numbers
  have hfresh : Site.splitter s ∉ sites ++ new := by
    intro hin
    rcases hnew.homes _ ((List.mem_append.1 hin).resolve_left hmem) with ⟨rest, hrest⟩ | hbelow
    · cases hrest
    · obtain ⟨t, ht, hhome⟩ := hbelow
      obtain rfl := Option.some.inj hhome
      exact Nat.lt_irrefl _ ht
  have hhomes : ∀ y ∈ new, y.home = some s ∨ y.Below s := by
    intro y hy
    rcases hnew.homes y hy with ⟨rest, rfl⟩ | hbelow
    · exact .inl rfl
    · exact .inr hbelow
  have hbelow : ∀ y ∈ new, y.Below bound := fun y hy =>
    (hhomes y hy).elim (fun hhome => ⟨s, hs, hhome⟩) fun hlow => hlow.mono (Nat.le_of_lt hs)
  have hwhole' := hwhole.splitter hnew.whole hhomes
  have huses : ∀ t, supply.readSplitters.count t + [Site.splitter s].count (.splitter t) =
      [s].count t + Site.reads ss t [.splitter s] := by
    intro t
    have hreads : Site.reads ss t [.splitter s] = supply.readSplitters.count t := by
      simp [Site.reads, Site.supply?, hsupply]
    rw [hreads, Site.count_splitter, Nat.add_comm]
  rw [← hinputs] at hnew
  have hsite : Adds ss p bound [.splitter s] [s] Own sites (new ++ [.splitter s]) _ _ :=
    hnew.site hfresh hwhole' (fun y hy => .inr (hbelow y hy)) (.inr ⟨s, hs, rfl⟩) huses
  rw [PlanGraph.site, ← hnew.numbers_eq] at hsite
  rw [Plan.drawOne, Plan.drawSplitter, hshared]
  exact ⟨new ++ [.splitter s], hsite⟩

end Draws

namespace Plan

/-- A site is that of a splitter if a reader of it stands there. -/
theorem count_siteAt (q : Plan) (tree : Option SplitterId) (path : List Nat) (s : SplitterId) :
    [q.siteAt tree path].count (.splitter s) = q.readFrom?.toList.count s := by
  cases hread : q.readFrom? with
  | none =>
    rw [siteAt_of_operator hread]
    rfl
  | some t =>
    rw [siteAt_of_reader hread, Site.count_splitter]
    rfl

/-- Whatever is not a reader is drawn after its inputs. -/
theorem draw_eq (supply : SplitterId → Option Drawing) {q : Plan} (h : q.readFrom? = none)
    (g : PlanGraph) : q.draw supply g =
      (drawAll supply q.inputs g).1.operator q.label (drawAll supply q.inputs g).2 := by
  cases q with
  | reader s layout => cases h
  | valuesOf targets source path => cases path <;> rfl
  | unique input width => cases width <;> rfl
  | equalsJoin left right allColumns => cases allColumns <;> rfl
  | _ => rfl

variable {supply : SplitterId → Option Drawing}

/-- Inputs are drawn from left to right. -/
theorem draws_inputs {tree : Option SplitterId} {path : List Nat}
    (htree : ∀ s, tree = some s → bound ≤ s) : ∀ {inputs : List Plan} {first : Nat},
    (∀ i q, inputs[i]? = some q →
      DrawsAt ss p bound tree (path ++ [first + i]) q (q.draw supply)) →
    Draws ss p bound (sitesFrom tree path first inputs) (inputs.flatMap readSplitters)
      (fun y => ∃ i, first ≤ i ∧ y.Behind tree (path ++ [i])) (drawAll supply inputs)
  | [], _, _ => Draws.nil
  | q :: rest, first, h => by
    have hq := h 0 q rfl
    have hrest : Draws ss p bound (sitesFrom tree path (first + 1) rest)
        (rest.flatMap readSplitters) (fun y => ∃ i, first + 1 ≤ i ∧ y.Behind tree (path ++ [i]))
        (drawAll supply rest) :=
      draws_inputs htree fun i q hi => by
        rw [Nat.add_assoc, Nat.add_comm 1 i]
        exact h (i + 1) q hi
    refine (hq.append hrest ?_).mono ?_
    · rintro y ⟨i, hi, hy⟩
      exact ⟨fun hfirst => Nat.ne_of_lt hi (hfirst.unique hy), hy.not_below htree⟩
    · rintro y (hy | ⟨i, hi, hy⟩)
      · exact ⟨first, Nat.le_refl _, hy⟩
      · exact ⟨i, Nat.le_of_succ_le hi, hy⟩

/-- An operator is drawn if its inputs are. -/
theorem draws_operator {tree : Option SplitterId} {path : List Nat} {q : Plan}
    (hreader : q.readFrom? = none) (hfind : p.find? ss tree path = some q)
    (htree : ∀ s, tree = some s → bound ≤ s)
    (h : ∀ i input, q.inputs[i]? = some input →
      DrawsAt ss p bound tree (path ++ [i]) input (input.draw supply)) :
    DrawsAt ss p bound tree path q (q.draw supply) := by
  have hinputs : (Site.operator tree path).inputs ss p = sitesFrom tree path 0 q.inputs := by
    simp [Site.inputs, hfind]
  have hlabel : (Site.operator tree path).label ss p = q.label := by
    simp [Site.label, hfind]
  have hall : Draws ss p bound ((Site.operator tree path).inputs ss p) q.readSplitters
      (fun y => ∃ i, 0 ≤ i ∧ y.Behind tree (path ++ [i])) (drawAll supply q.inputs) := by
    rw [hinputs, readSplitters_of_operator hreader]
    exact draws_inputs htree fun i input hi => (Nat.zero_add i).symm ▸ h i input hi
  have hdraw : q.draw supply = fun g => (drawAll supply q.inputs g).1.operator
      ((Site.operator tree path).label ss p) (drawAll supply q.inputs g).2 :=
    funext fun g => by rw [draw_eq supply hreader, hlabel]
  rw [DrawsAt, siteAt_of_operator hreader, hdraw]
  refine hall.operator ?_ htree
  rintro y ⟨i, -, hy⟩
  exact ⟨hy.of_snoc, hy.ne⟩

/-- A plan is drawn if the supplies of the splitters that it reads are. -/
theorem draws_plan (hsupply : ∀ s < bound, ∃ u draw, ss[s]? = some u ∧ supply s = some draw ∧
      DrawsAt ss p s (some s) [] u draw)
    (q : Plan) : ∀ {tree : Option SplitterId} {path : List Nat},
    p.find? ss tree path = some q → (∀ s, tree = some s → bound ≤ s) →
    (∀ s ∈ q.readSplitters, s < bound) → DrawsAt ss p bound tree path q (q.draw supply) := by
  induction q using inputs_induction with
  | step q ih =>
    intro tree path hfind htree hreads
    cases hreader : q.readFrom? with
    | some s =>
      obtain ⟨layout, rfl⟩ := exists_eq_reader hreader
      have hs : s < bound := hreads s (List.mem_singleton_self s)
      obtain ⟨u, draw, hu, hdraw, hdraws⟩ := hsupply s hs
      rw [Plan.draw, hdraw]
      exact hdraws.splitter hu hs
    | none =>
      refine draws_operator hreader hfind htree fun i input hi => ?_
      have hmem := List.mem_of_getElem? hi
      refine ih input hmem ((find?_snoc hfind i).trans hi) htree fun s hs => hreads s ?_
      exact readSplitters_of_operator hreader ▸ List.mem_flatMap.2 ⟨input, hmem, hs⟩

/-- Among splitters whose supplies read only splitters with smaller numbers, every supply is drawn
as far as it takes. -/
theorem exists_draws_supply (hlayered : ss.Layered) : ∀ (n s : Nat), s < n → s < ss.size →
    ∃ u draw, ss[s]? = some u ∧ supplyBelow (ss[·]?) n s = some draw ∧
      DrawsAt ss p s (some s) [] u draw
  | n + 1, s, hs, hsize => by
    have hu : ss[s]? = some ss[s] := Array.getElem?_eq_getElem hsize
    refine ⟨ss[s], _, hu, by rw [supplyBelow, hu]; rfl, ?_⟩
    refine draws_plan (fun t ht => exists_draws_supply hlayered n t ?_ ?_) ss[s] ?_ ?_
      (hlayered s ss[s] hu)
    · exact Nat.lt_of_lt_of_le ht (Nat.le_of_lt_succ hs)
    · exact Nat.lt_trans ht hsize
    · rw [find?, tree?, hu]
      rfl
    · exact fun t ht => Nat.le_of_eq (Option.some.inj ht)

/-- Drawing a plan from the beginning adds all of its sites. -/
theorem exists_adds (hlayered : ss.Layered) (hreads : ∀ s ∈ p.readSplitters, s < ss.size) :
    ∃ sites numbers, Adds ss p ss.size [p.siteAt none []] p.readSplitters (Site.Behind none []) []
      sites (p.graph ss) numbers := by
  have hplan : DrawsAt ss p ss.size none [] p (p.explain (ss[·]?) ss.size) :=
    draws_plan (fun s hs => exists_draws_supply hlayered ss.size s hs hs) p rfl nofun hreads
  obtain ⟨sites, hsites⟩ := hplan .empty nofun nofun
  exact ⟨sites, _, hsites⟩

end Plan

end GraphShapes
