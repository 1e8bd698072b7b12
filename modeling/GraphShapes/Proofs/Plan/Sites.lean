import GraphShapes.Plan.Explain
import GraphShapes.Plan.Load
import Mathlib.Data.List.Induction
import Mathlib.Logic.Relation

/-!
# Where the operators of a plan stand

A plan among splitters consists of trees: the plan itself, the supplies of the splitters that it
reads, the supplies of those that these read, and so on (`Plan.Holds`). Its operators stand at
*sites* (`Plan.HasSite`): every splitter that is read somewhere is one, however often it is read,
and so is every place in one of the trees at which something else than a reader is found.

What an operator gets its rows from are the sites of its inputs, where a reader stands for its
splitter and a splitter gets them from its supply (`Site.inputs`). The sites of a plan are exactly
those that lead to its root this way (`Plan.hasSite_iff`).
-/

namespace GraphShapes

/-- A place of an operator: a splitter, or what is found in a tree, the plan itself (`none`) or the
supply of a splitter, by going to the inputs with the numbers of a path. -/
inductive Site where
  | splitter (s : SplitterId)
  | operator (tree : Option SplitterId) (path : List Nat)
deriving DecidableEq

namespace Plan

/-- The plans that an operator reads, from left to right. A reader has none of its own. -/
def inputs : Plan → List Plan
  | empty _ => []
  | values .. => []
  | probe _ => []
  | targetScan _ => []
  | reader .. => []
  | valuesOf targets _ _ => [targets]
  | countValues targets vs _ _ => [targets, vs]
  | filter input _ _ => [input]
  | trim input _ => [input]
  | sort input => [input]
  | unique input _ => [input]
  | union inputs => inputs
  | tag input _ => [input]
  | relabel input _ => [input]
  | equalsJoin left right _ => [left, right]
  | innerJoin left right => [left, right]
  | antiJoin left right => [left, right]

/-- What an operator is called in a drawing. -/
def label : Plan → String
  | values rows _ => "Values(" ++ toString rows.length ++ ")"
  | targetScan scan => scan.label
  | valuesOf _ _ path =>
    "ValuesOf(" ++ (match path with | some p => p.display | none => "self") ++ ")"
  | countValues _ _ label _ => "CountValues(" ++ label ++ ")"
  | filter _ label _ => "Filter(" ++ label ++ ")"
  | trim _ width => "TrimTuple(0.." ++ toString width ++ ")"
  | unique _ (some n) => "Unique(prefix=" ++ toString n ++ ")"
  | tag _ shape => "EnrichWithShape(" ++ shape.display ++ ")"
  | relabel _ layout => "ShapeOverride(" ++ layout.name ++ ")"
  | equalsJoin _ _ true => "EqualsJoin(all columns)"
  | equalsJoin _ _ false => "EqualsJoin(target)"
  | p => p.name

/-- The splitter of a reader. -/
def readFrom? : Plan → Option SplitterId
  | reader s _ => some s
  | _ => none

/-- Only readers read from a splitter themselves. -/
theorem exists_eq_reader {q : Plan} {s : SplitterId} (h : q.readFrom? = some s) :
    ∃ layout, q = reader s layout := by
  cases q with
  | reader t layout =>
    obtain rfl := Option.some.inj h
    exact ⟨layout, rfl⟩
  | _ => cases h

/-- The inputs of a plan are smaller than the plan. -/
theorem sizeOf_lt_of_mem_inputs {p i : Plan} (h : i ∈ p.inputs) : sizeOf i < sizeOf p := by
  cases p with
  | union inputs =>
    have hmem : i ∈ inputs := h
    have := List.sizeOf_lt_of_mem hmem
    simp only [union.sizeOf_spec]
    omega
  | _ =>
    simp only [inputs, List.mem_cons, List.not_mem_nil, or_false] at h <;>
      rcases h with rfl | rfl <;> grind

/-- Induction over a plan, whatever its inputs are to it. -/
theorem inputs_induction {P : Plan → Prop} (step : ∀ p, (∀ i ∈ p.inputs, P i) → P p) (p : Plan) :
    P p :=
  step p fun i _ => inputs_induction step i
termination_by sizeOf p
decreasing_by exact sizeOf_lt_of_mem_inputs ‹_›

/-- Several plans read what each of them reads. -/
theorem allReadSplitters_eq (plans : List Plan) :
    allReadSplitters plans = plans.flatMap readSplitters := by
  induction plans with
  | nil => rfl
  | cons p rest ih => rw [allReadSplitters, ih, List.flatMap_cons]

/-- Only a reader reads a splitter itself. -/
theorem readSplitters_eq (p : Plan) :
    p.readSplitters = p.readFrom?.toList ++ p.inputs.flatMap readSplitters := by
  cases p <;> simp [readSplitters, readFrom?, inputs, allReadSplitters_eq]

/-- An operator reads what its inputs read. -/
theorem readSplitters_of_operator {q : Plan} (h : q.readFrom? = none) :
    q.readSplitters = q.inputs.flatMap readSplitters := by
  rw [readSplitters_eq, h]
  rfl

/-- What is found by going to the inputs with the numbers of a path. -/
def at? : Plan → List Nat → Option Plan
  | p, [] => some p
  | p, i :: path => p.inputs[i]?.bind (·.at? path)

/-- A place is reached by one path and then another. -/
theorem at?_append (p : Plan) (path path' : List Nat) :
    p.at? (path ++ path') = (p.at? path).bind (·.at? path') := by
  induction path generalizing p with
  | nil => rfl
  | cons i path ih =>
    rw [List.cons_append, at?, at?, Option.bind_assoc]
    exact congrArg p.inputs[i]?.bind (funext fun q => ih q)

/-- The inputs of what is found at a path are found behind it. -/
theorem at?_snoc {p q : Plan} {path : List Nat} (h : p.at? path = some q) (i : Nat) :
    p.at? (path ++ [i]) = q.inputs[i]? := by
  rw [at?_append, h, Option.bind_some, at?]
  exact Option.bind_fun_some _

/-- A splitter that is read at some place is read. -/
theorem mem_readSplitters_of_at? {p q : Plan} {path : List Nat} (h : p.at? path = some q)
    {s : SplitterId} (hs : s ∈ q.readSplitters) : s ∈ p.readSplitters := by
  induction path generalizing p with
  | nil =>
    obtain rfl := Option.some.inj h
    exact hs
  | cons i path ih =>
    obtain ⟨input, hinput, hq⟩ := Option.bind_eq_some_iff.1 h
    rw [readSplitters_eq]
    exact List.mem_append_right _ (List.mem_flatMap.2 ⟨input, List.mem_of_getElem? hinput, ih hq⟩)

/-- A splitter that is read has a reader. -/
theorem exists_at?_reader {s : SplitterId} (p : Plan) (hs : s ∈ p.readSplitters) :
    ∃ path q, p.at? path = some q ∧ q.readFrom? = some s := by
  induction p using inputs_induction with
  | step p ih =>
    rw [readSplitters_eq] at hs
    rcases List.mem_append.1 hs with hs | hs
    · exact ⟨[], p, rfl, Option.mem_toList.1 hs⟩
    · obtain ⟨i, hi, hs⟩ := List.mem_flatMap.1 hs
      obtain ⟨n, hn⟩ := List.getElem?_of_mem hi
      obtain ⟨path, q, hq, hread⟩ := ih i hi hs
      exact ⟨n :: path, q, by rw [at?, hn]; exact hq, hread⟩

/-- The site of a plan at a path of a tree. A reader stands for its splitter. -/
def siteAt (tree : Option SplitterId) (path : List Nat) (p : Plan) : Site :=
  match p.readFrom? with
  | some s => .splitter s
  | none => .operator tree path

/-- The sites of the inputs of an operator at a path, the first of which has a given number. -/
def sitesFrom (tree : Option SplitterId) (path : List Nat) (first : Nat) (inputs : List Plan) :
    List Site :=
  (inputs.zipIdx first).map fun (p, i) => p.siteAt tree (path ++ [i])

variable (ss : Splitters) (p : Plan)

/-- The plan itself, or the supply of a splitter. -/
def tree? : Option SplitterId → Option Plan
  | none => some p
  | some s => ss[s]?

/-- What stands at a path of a tree. -/
def find? (tree : Option SplitterId) (path : List Nat) : Option Plan :=
  (p.tree? ss tree).bind (·.at? path)

/-- The trees that the plan consists of: the plan itself, and the supplies of the splitters that
these trees read. -/
inductive Holds : Option SplitterId → Plan → Prop where
  | whole : Holds none p
  | supply {tree : Option SplitterId} {q u : Plan} {s : SplitterId} (h : Holds tree q)
    (hread : s ∈ q.readSplitters) (hs : ss[s]? = some u) : Holds (some s) u

/-- The operators that the plan consists of: the splitters that its trees read, and what else is
found in these trees. -/
inductive HasSite : Site → Prop where
  | splitter {tree : Option SplitterId} {q : Plan} {s : SplitterId} (h : Holds ss p tree q)
    (hread : s ∈ q.readSplitters) : HasSite (.splitter s)
  | operator {tree : Option SplitterId} {path : List Nat} {q o : Plan} (h : Holds ss p tree q)
    (ho : q.at? path = some o) (hread : o.readFrom? = none) : HasSite (.operator tree path)

end Plan

namespace Site

variable (ss : Splitters) (p : Plan)

/-- What the operator is called. -/
def label : Site → String
  | splitter _ => "BufferedSplitter"
  | operator tree path => ((p.find? ss tree path).map Plan.label).getD ""

/-- The sites that the operator gets its rows from, from left to right. -/
def inputs : Site → List Site
  | splitter s => ss[s]?.toList.map (Plan.siteAt (some s) [])
  | operator tree path =>
    (p.find? ss tree path).toList.flatMap fun q => Plan.sitesFrom tree path 0 q.inputs

/-- The supply, if it is a splitter. -/
def supply? : Site → Option Plan
  | splitter s => ss[s]?
  | operator .. => none

/-- The rows of the first site go to the second. -/
def Feeds (c o : Site) : Prop := c ∈ o.inputs ss p

/-- The rows of the first site reach the second, perhaps through others. -/
def LeadsTo : Site → Site → Prop := Relation.ReflTransGen (Feeds ss p)

end Site

namespace Plan

variable {ss : Splitters} {p : Plan}

/-- A tree that the plan holds is found under its splitter. -/
theorem Holds.tree?_eq {tree : Option SplitterId} {q : Plan} (h : p.Holds ss tree q) :
    p.tree? ss tree = some q := by
  cases h with
  | whole => rfl
  | supply _ _ hs => exact hs

/-- A place in it is found there. -/
theorem Holds.find?_eq {tree : Option SplitterId} {q : Plan} (h : p.Holds ss tree q)
    (path : List Nat) : p.find? ss tree path = q.at? path := by
  rw [find?, h.tree?_eq, Option.bind_some]

/-- One step further is an input of the plan that is found. -/
theorem find?_snoc {tree : Option SplitterId} {path : List Nat} {q : Plan}
    (h : p.find? ss tree path = some q) (i : Nat) :
    p.find? ss tree (path ++ [i]) = q.inputs[i]? := by
  obtain ⟨root, hroot, hq⟩ := Option.bind_eq_some_iff.1 h
  rw [find?, hroot, Option.bind_some, at?_snoc hq]

/-- The sites of inputs are numbered from the left. -/
theorem mem_sitesFrom {tree : Option SplitterId} {path : List Nat} {inputs : List Plan} {c : Site} :
    c ∈ sitesFrom tree path 0 inputs ↔
      ∃ (i : Nat) (q : Plan), inputs[i]? = some q ∧ c = q.siteAt tree (path ++ [i]) := by
  simp only [sitesFrom, List.mem_map, Prod.exists, List.mk_mem_zipIdx_iff_getElem?]
  exact ⟨fun ⟨q, i, hq, hc⟩ => ⟨i, q, hq, hc.symm⟩, fun ⟨i, q, hq, hc⟩ => ⟨q, i, hq, hc.symm⟩⟩

/-- Where a reader stands, the site is its splitter. -/
theorem siteAt_of_reader {q : Plan} {s : SplitterId} (h : q.readFrom? = some s)
    (tree : Option SplitterId) (path : List Nat) : q.siteAt tree path = .splitter s := by
  rw [siteAt, h]

/-- Where an operator stands, the site is the place. -/
theorem siteAt_of_operator {q : Plan} (h : q.readFrom? = none) (tree : Option SplitterId)
    (path : List Nat) : q.siteAt tree path = .operator tree path := by
  rw [siteAt, h]

/-- Whatever has inputs is no reader. -/
theorem readFrom?_eq_none {q : Plan} {i : Nat} {input : Plan} (h : q.inputs[i]? = some input) :
    q.readFrom? = none := by
  cases q with
  | reader s layout => cases h
  | _ => rfl

/-! ## Sites lead to the root -/

/-- What is found in a tree leads to the root of the tree. -/
theorem Holds.leadsTo {tree : Option SplitterId} {q : Plan} (h : p.Holds ss tree q) :
    ∀ {path : List Nat} {o : Plan}, q.at? path = some o →
      (o.siteAt tree path).LeadsTo ss p (q.siteAt tree []) := by
  intro path
  -- from the end of the path, whose last step is one from an operator to its input
  induction path using List.reverseRecOn with
  | nil =>
    intro o ho
    obtain rfl := Option.some.inj ho
    exact .refl
  | append_singleton path i ih =>
    intro o ho
    cases hq : q.at? path with
    | none =>
      rw [at?_append, hq] at ho
      cases ho
    | some reading =>
      rw [at?_snoc hq] at ho
      refine .head ?_ (ih hq)
      rw [siteAt_of_operator (readFrom?_eq_none ho)]
      show _ ∈ Site.inputs ss p (.operator tree path)
      rw [Site.inputs, h.find?_eq, hq]
      simpa using mem_sitesFrom.2 ⟨i, o, ho, rfl⟩

/-- A splitter that is read in a tree leads to the root of the tree. -/
theorem Holds.splitter_leadsTo {tree : Option SplitterId} {q : Plan} (h : p.Holds ss tree q)
    {s : SplitterId} (hread : s ∈ q.readSplitters) :
    (Site.splitter s).LeadsTo ss p (q.siteAt tree []) := by
  obtain ⟨path, o, ho, hos⟩ := exists_at?_reader q hread
  have hreader := h.leadsTo ho
  rwa [siteAt_of_reader hos] at hreader

/-- The trees that a plan consists of lead to its root. -/
theorem Holds.root_leadsTo {tree : Option SplitterId} {q : Plan} (h : p.Holds ss tree q) :
    (q.siteAt tree []).LeadsTo ss p (p.siteAt none []) := by
  induction h with
  | whole => exact .refl
  | @supply tree q u s h hread hs ih =>
    -- the supply leads to its splitter, which is read in a tree that is nearer to the root
    refine .head ?_ ((h.splitter_leadsTo hread).trans ih)
    show _ ∈ Site.inputs ss p (.splitter s)
    rw [Site.inputs, hs]
    exact List.mem_singleton_self _

/-- Every place in a tree that the plan holds gives a site of the plan. -/
theorem hasSite_siteAt {tree : Option SplitterId} {q o : Plan} {path : List Nat}
    (h : p.Holds ss tree q) (ho : q.at? path = some o) : p.HasSite ss (o.siteAt tree path) := by
  cases hread : o.readFrom? with
  | none =>
    rw [siteAt_of_operator hread]
    exact .operator h ho hread
  | some s =>
    rw [siteAt_of_reader hread]
    refine .splitter h (mem_readSplitters_of_at? ho ?_)
    rw [readSplitters_eq, hread]
    exact List.mem_append_left _ (List.mem_singleton_self s)

/-- What an operator of the plan gets its rows from is an operator of the plan. -/
theorem HasSite.input {c o : Site} (ho : p.HasSite ss o) (hc : c ∈ o.inputs ss p) :
    p.HasSite ss c := by
  cases ho with
  | @splitter tree q s h hread =>
    simp only [Site.inputs, List.mem_map, Option.mem_toList] at hc
    obtain ⟨u, hu, rfl⟩ := hc
    exact hasSite_siteAt (.supply h hread hu) rfl
  | @operator tree path q o h ho hread =>
    rw [Site.inputs, h.find?_eq, ho] at hc
    obtain ⟨i, input, hinput, rfl⟩ := mem_sitesFrom.1 (by simpa using hc)
    exact hasSite_siteAt h ((at?_snoc ho i).trans hinput)

/-- The operators of a plan are those that lead to its root. -/
theorem hasSite_iff {x : Site} : p.HasSite ss x ↔ x.LeadsTo ss p (p.siteAt none []) := by
  constructor
  · intro h
    cases h with
    | splitter h hread => exact (h.splitter_leadsTo hread).trans h.root_leadsTo
    | operator h ho hread =>
      have hplace := h.leadsTo ho
      rw [siteAt_of_operator hread] at hplace
      exact hplace.trans h.root_leadsTo
  · intro h
    induction h using Relation.ReflTransGen.head_induction_on with
    | refl => exact hasSite_siteAt .whole rfl
    | head hc _ ih => exact ih.input hc

end Plan

end GraphShapes
