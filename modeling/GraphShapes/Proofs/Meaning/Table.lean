import GraphShapes.Row
import Mathlib.Data.Finset.Image
import Mathlib.Data.Finset.Option
import Mathlib.Data.Finset.Union
import Mathlib.Data.List.Forall2

/-!
# Tables of violations

What the plan of a shape is meant to deliver, as a set: a `Table` is a layout and a set of lines.
A `Part` is what a conjunction or disjunction has to know of a member: its table, if it has one,
and whether it sets a path of its own.

`Table.unite` is what a conjunction makes of its members, `Table.disjoin` what a disjunction makes
of its branches. Both keep whole lines only if every table that is combined has all three columns
and no part sets its own path (`commonLayout`); otherwise only targets are combined.

Cutting a table down to some targets (`Table.restrict`) goes through every combination
(`unite_restrict`, `disjoin_restrict`): what is combined for few targets is what is combined for
many, restricted to the few.
-/

namespace GraphShapes

/-- The lines of a plan and their layout. -/
@[ext]
structure Table where
  /-- Which columns carry meaning. -/
  layout : Layout
  /-- The lines. -/
  lines : Finset (List Term)
deriving DecidableEq

namespace Table

/-- The lines as they are combined under a layout: whole, or cut to the target. -/
def linesAs (layout : Layout) (t : Table) : Finset (List Term) :=
  match layout with
  | .tripleBased => t.lines
  | .aggregated => t.lines.image (List.take 1)

/-- Is there a line about the target? -/
def Mentions (table : Table) (t : Term) : Prop := ∃ l ∈ table.lines, l.head? = some t

/-- The layout in which tables are combined. -/
def commonLayout (tables : List Table) (ownPath : Bool) : Layout :=
  if !ownPath && tables.all fun t => t.layout = .tripleBased then .tripleBased else .aggregated

/-- A member of a conjunction or disjunction. -/
@[ext]
structure Part where
  /-- The table of the member; nothing if it has no plan. -/
  table : Option Table
  /-- Does the member set a path other than the one it would inherit? -/
  ownPath : Bool

/-- The tables of the parts that have one. -/
def tablesOf (parts : List Part) : List Table := parts.filterMap Part.table

/-- Does a part that has a table set its own path? -/
def ownPathOf (parts : List Part) : Bool := parts.any fun p => p.table.isSome && p.ownPath

/-- The lines of any table under a layout. -/
def unionAs (layout : Layout) (tables : List Table) : Table :=
  ⟨layout, tables.foldr (fun t lines => t.linesAs layout ∪ lines) ∅⟩

/-- The lines of every table under a layout. -/
def intersectionAs (layout : Layout) (first : Table) (rest : List Table) : Table :=
  ⟨layout, (first.linesAs layout).filter fun l => ∀ t ∈ rest, l ∈ t.linesAs layout⟩

/-- The lines of any table under the common layout. -/
def union (ownPath : Bool) : List Table → Option Table
  | [] => none
  | first :: rest => some (unionAs (commonLayout (first :: rest) ownPath) (first :: rest))

/-- The lines of every table under the common layout. -/
def intersection (ownPath : Bool) : List Table → Option Table
  | [] => none
  | first :: rest => some (intersectionAs (commonLayout (first :: rest) ownPath) first rest)

/-- The lines of any member that has a table. -/
def unite (parts : List Part) : Option Table := union (ownPathOf parts) (tablesOf parts)

/-- The lines of every branch that has a table. -/
def intersect (branches : List (List Part)) : Option Table :=
  intersection (branches.any fun b => b.any Part.ownPath) (branches.filterMap unite)

/-- What a disjunction makes of its branches: a single branch with a single member is that
member. -/
def disjoin : List (List Part) → Option Table
  | [[only]] => only.table
  | branches => intersect branches

/-! ## Membership -/

/-- A line is in a union if it is in one of the tables, cut to the layout. -/
theorem mem_unionAs {layout : Layout} {tables : List Table} {l : List Term} :
    l ∈ (unionAs layout tables).lines ↔ ∃ t ∈ tables, l ∈ t.linesAs layout := by
  induction tables with
  | nil => simp [unionAs]
  | cons t tables ih =>
    show l ∈ t.linesAs layout ∪ (unionAs layout tables).lines ↔ _
    rw [Finset.mem_union, ih, List.exists_mem_cons_iff]

/-- A line is in an intersection if it is in all of the tables, cut to the layout. -/
theorem mem_intersectionAs {layout : Layout} {first : Table} {rest : List Table} {l : List Term} :
    l ∈ (intersectionAs layout first rest).lines ↔
      ∀ t ∈ first :: rest, l ∈ t.linesAs layout := by
  rw [intersectionAs, Finset.mem_filter, List.forall_mem_cons]

/-- Cutting a line keeps its target. -/
theorem head?_take_one (l : List Term) : (l.take 1).head? = l.head? := by
  cases l <;> rfl

/-- Combining keeps the targets, whatever the layout. -/
theorem exists_mem_linesAs {layout : Layout} {table : Table} {t : Term} :
    (∃ l ∈ table.linesAs layout, l.head? = some t) ↔ table.Mentions t := by
  cases layout with
  | tripleBased => exact Iff.rfl
  | aggregated =>
    simp only [linesAs, Finset.exists_mem_image, head?_take_one]
    exact Iff.rfl

/-- All columns survive if all tables have them and no path is set. -/
theorem commonLayout_eq_tripleBased_iff {tables : List Table} {ownPath : Bool} :
    commonLayout tables ownPath = .tripleBased ↔
      ownPath = false ∧ ∀ t ∈ tables, t.layout = .tripleBased := by
  unfold commonLayout
  split
  · next h => simpa using h
  · next h => simpa using h

/-- A union is missing only if there is nothing to unite. -/
theorem union_eq_none_iff {tables : List Table} {ownPath : Bool} :
    union ownPath tables = none ↔ tables = [] := by
  cases tables <;> simp [union]

/-- A conjunction has no table only if none of its members has. -/
theorem unite_eq_none_iff {parts : List Part} :
    unite parts = none ↔ ∀ p ∈ parts, p.table = none := by
  rw [unite, union_eq_none_iff, tablesOf, List.filterMap_eq_nil_iff]

/-- A target is in a union as soon as it is in one of the tables. -/
theorem mentions_of_union {tables : List Table} {ownPath : Bool} {table : Table} {t : Term}
    (h : union ownPath tables = some table) :
    table.Mentions t ↔ ∃ x ∈ tables, x.Mentions t := by
  cases tables with
  | nil => cases h
  | cons first rest =>
    obtain rfl := Option.some.inj h
    constructor
    · intro hex
      obtain ⟨l, hl, ht⟩ := hex
      obtain ⟨x, hx, hlx⟩ := mem_unionAs.1 hl
      exact ⟨x, hx, exists_mem_linesAs.1 ⟨l, hlx, ht⟩⟩
    · intro hex
      obtain ⟨x, hx, hm⟩ := hex
      obtain ⟨l, hl, ht⟩ := exists_mem_linesAs.2 hm
      exact ⟨l, mem_unionAs.2 ⟨x, hx, hl⟩, ht⟩

/-- A target is in an intersection only if it is in all of the tables. -/
theorem mentions_of_intersection {tables : List Table} {ownPath : Bool} {table : Table} {t : Term}
    (h : intersection ownPath tables = some table) (ht : table.Mentions t) :
    ∀ x ∈ tables, x.Mentions t := by
  cases tables with
  | nil => cases h
  | cons first rest =>
    obtain rfl := Option.some.inj h
    obtain ⟨l, hl, hlt⟩ := ht
    intro x hx
    have hlx : l ∈ x.linesAs _ := mem_intersectionAs.1 hl x hx
    exact exists_mem_linesAs.1 ⟨l, hlx, hlt⟩

/-- The tables of parts are those that they have. -/
theorem mem_tablesOf {parts : List Part} {x : Table} :
    x ∈ tablesOf parts ↔ ∃ p ∈ parts, p.table = some x := by
  rw [tablesOf, List.mem_filterMap]

/-- Is there a table, and in it the line? -/
def HasLine (table : Option Table) (l : List Term) : Prop := ∃ x, table = some x ∧ l ∈ x.lines

/-- Is there a table, and in it a line about the target? -/
def Reports (table : Option Table) (t : Term) : Prop := ∃ x, table = some x ∧ x.Mentions t

/-- A table reports the targets of its lines. -/
theorem reports_iff {table : Option Table} {t : Term} :
    Reports table t ↔ ∃ l, HasLine table l ∧ l.head? = some t := by
  constructor
  · intro h
    obtain ⟨x, hx, l, hl, ht⟩ := h
    exact ⟨l, ⟨x, hx, hl⟩, ht⟩
  · intro h
    obtain ⟨l, ⟨x, hx, hl⟩, ht⟩ := h
    exact ⟨x, hx, l, hl, ht⟩

theorem not_reports_none {t : Term} : ¬Reports none t := fun ⟨_, h, _⟩ => nomatch h

theorem not_hasLine_none {l : List Term} : ¬HasLine none l := fun ⟨_, h, _⟩ => nomatch h

/-- A line of a conjunction is a line of a member, cut if need be. -/
theorem hasLine_unite {parts : List Part} {l : List Term} :
    HasLine (unite parts) l ↔ ∃ p ∈ parts, ∃ x, p.table = some x ∧
      l ∈ x.linesAs (commonLayout (tablesOf parts) (ownPathOf parts)) := by
  unfold unite
  cases hp : tablesOf parts with
  | nil =>
    refine ⟨fun h => absurd h not_hasLine_none, ?_⟩
    intro hex
    obtain ⟨p, hpm, x, hpx, -⟩ := hex
    -- but no member has a table
    have hx := mem_tablesOf.2 ⟨p, hpm, hpx⟩
    rw [hp] at hx
    exact absurd hx List.not_mem_nil
  | cons first rest =>
    constructor
    · intro hex
      obtain ⟨y, hy, hl⟩ := hex
      obtain rfl := Option.some.inj hy
      obtain ⟨x, hx, hlx⟩ := mem_unionAs.1 hl
      rw [← hp] at hx
      obtain ⟨p, hpm, hpx⟩ := mem_tablesOf.1 hx
      exact ⟨p, hpm, x, hpx, hlx⟩
    · intro hex
      obtain ⟨p, hpm, x, hpx, hlx⟩ := hex
      exact ⟨_, rfl, mem_unionAs.2 ⟨x, hp ▸ mem_tablesOf.2 ⟨p, hpm, hpx⟩, hlx⟩⟩

/-- A line of an intersection is a line of every branch, cut if need be. -/
theorem hasLine_intersection {tables : List Table} {ownPath : Bool} {l : List Term} :
    HasLine (intersection ownPath tables) l ↔
      tables ≠ [] ∧ ∀ x ∈ tables, l ∈ x.linesAs (commonLayout tables ownPath) := by
  cases tables with
  | nil => exact ⟨fun h => absurd h not_hasLine_none, fun h => absurd rfl h.1⟩
  | cons first rest =>
    constructor
    · intro hex
      obtain ⟨y, hy, hl⟩ := hex
      obtain rfl := Option.some.inj hy
      exact ⟨List.cons_ne_nil first rest, mem_intersectionAs.1 hl⟩
    · intro hex
      obtain ⟨-, hl⟩ := hex
      exact ⟨_, rfl, mem_intersectionAs.2 hl⟩

/-- The common layout depends on the layouts only. -/
theorem commonLayout_congr {a b : List Table} (h : a.map Table.layout = b.map Table.layout)
    (ownPath : Bool) : commonLayout a ownPath = commonLayout b ownPath := by
  have hall : ∀ ts : List Table, (ts.all fun t => decide (t.layout = .tripleBased)) =
      (ts.map Table.layout).all fun l => decide (l = .tripleBased) := fun ts => by
    rw [List.all_map]
    rfl
  rw [commonLayout, commonLayout, hall, hall, h]

/-- A conjunction reports the targets that its members report. -/
theorem reports_unite {parts : List Part} {t : Term} :
    Reports (unite parts) t ↔ ∃ p ∈ parts, Reports p.table t := by
  constructor
  · intro hex
    obtain ⟨table, h, hm⟩ := hex
    obtain ⟨x, hx, hxm⟩ := (mentions_of_union h).1 hm
    obtain ⟨p, hp, hpx⟩ := mem_tablesOf.1 hx
    exact ⟨p, hp, x, hpx, hxm⟩
  · intro hex
    obtain ⟨p, hp, x, hpx, hm⟩ := hex
    have hx := mem_tablesOf.2 ⟨p, hp, hpx⟩
    cases hu : unite parts with
    | none =>
      rw [unite, union_eq_none_iff] at hu
      rw [hu] at hx
      exact absurd hx List.not_mem_nil
    | some table => exact ⟨table, rfl, (mentions_of_union hu).2 ⟨x, hx, hm⟩⟩

/-- The targets that the table is about. -/
def targets (table : Table) : Finset Term := table.lines.biUnion fun l => l.head?.toFinset

/-- The targets of a table are those that it mentions. -/
theorem mem_targets {table : Table} {t : Term} : t ∈ table.targets ↔ table.Mentions t := by
  simp only [targets, Finset.mem_biUnion, Option.mem_toFinset, Option.mem_def]
  exact Iff.rfl

/-! ## Fewer targets -/

/-- The lines about some targets. -/
def restrict (targets : Finset Term) (t : Table) : Table :=
  ⟨t.layout, t.lines.filter fun l => ∃ x ∈ targets, l.head? = some x⟩

/-- The part for fewer targets. -/
def Part.restrict (targets : Finset Term) (p : Part) : Part :=
  ⟨p.table.map (Table.restrict targets), p.ownPath⟩

variable {targets : Finset Term}

/-- Restricting a table keeps the lines of the targets. -/
theorem mem_restrict {t : Table} {l : List Term} :
    l ∈ (t.restrict targets).lines ↔ l ∈ t.lines ∧ ∃ x ∈ targets, l.head? = some x :=
  Finset.mem_filter

/-- Nothing is lost if all lines are about the targets. -/
theorem restrict_eq_self {t : Table} (h : ∀ l ∈ t.lines, ∃ x ∈ targets, l.head? = some x) :
    t.restrict targets = t :=
  Table.ext rfl (Finset.filter_true_of_mem h)

/-- A restricted table reports what the table does, of the targets. -/
theorem reports_restrict {table : Option Table} {t : Term} :
    Reports (table.map (restrict targets)) t ↔ Reports table t ∧ t ∈ targets := by
  constructor
  · intro h
    obtain ⟨y, hy, l, hl, ht⟩ := h
    obtain ⟨x, hx, rfl⟩ := Option.map_eq_some_iff.1 hy
    obtain ⟨hl, u, hu, hlu⟩ := mem_restrict.1 hl
    obtain rfl := Option.some.inj (ht.symm.trans hlu)
    exact ⟨⟨x, hx, l, hl, ht⟩, hu⟩
  · intro h
    obtain ⟨⟨x, rfl, l, hl, ht⟩, htargets⟩ := h
    exact ⟨_, rfl, l, mem_restrict.2 ⟨hl, t, htargets, ht⟩, ht⟩

/-- It has the lines that the table has, of the targets. -/
theorem hasLine_restrict {table : Option Table} {l : List Term} :
    HasLine (table.map (restrict targets)) l ↔
      HasLine table l ∧ ∃ x ∈ targets, l.head? = some x := by
  constructor
  · intro h
    obtain ⟨y, hy, hl⟩ := h
    obtain ⟨x, hx, rfl⟩ := Option.map_eq_some_iff.1 hy
    obtain ⟨hl, htargets⟩ := mem_restrict.1 hl
    exact ⟨⟨x, hx, hl⟩, htargets⟩
  · intro h
    obtain ⟨⟨x, rfl, hl⟩, htargets⟩ := h
    exact ⟨_, rfl, mem_restrict.2 ⟨hl, htargets⟩⟩

/-- Restricting first and cutting first comes to the same. -/
theorem linesAs_restrict (layout : Layout) (t : Table) :
    (t.restrict targets).linesAs layout =
      (t.linesAs layout).filter fun l => ∃ x ∈ targets, l.head? = some x := by
  cases layout with
  | tripleBased => rfl
  | aggregated =>
    show (Finset.filter _ t.lines).image _ = (t.lines.image _).filter _
    rw [Finset.filter_image]
    simp only [head?_take_one]

variable (targets) in
/-- Restricting tables does not change their common layout. -/
theorem commonLayout_restrict (tables : List Table) (ownPath : Bool) :
    commonLayout (tables.map (restrict targets)) ownPath = commonLayout tables ownPath := by
  rw [commonLayout, commonLayout, List.all_map]
  rfl

/-- A union of restricted tables is the restricted union. -/
theorem union_restrict (ownPath : Bool) (tables : List Table) :
    union ownPath (tables.map (restrict targets)) =
      (union ownPath tables).map (restrict targets) := by
  cases tables with
  | nil => rfl
  | cons first rest =>
    -- the restriction drops lines, it changes no layout
    have hl := commonLayout_restrict targets (first :: rest) ownPath
    rw [List.map_cons] at hl
    rw [List.map_cons, union, union, hl, Option.map_some, Option.some.injEq]
    refine Table.ext rfl (Finset.ext fun l => ?_)
    rw [mem_restrict, mem_unionAs, mem_unionAs, ← List.map_cons]
    constructor
    · intro h
      obtain ⟨x, hx, hlx⟩ := h
      obtain ⟨y, hy, rfl⟩ := List.mem_map.1 hx
      rw [linesAs_restrict, Finset.mem_filter] at hlx
      exact ⟨⟨y, hy, hlx.1⟩, hlx.2⟩
    · intro h
      obtain ⟨⟨y, hy, hly⟩, ht⟩ := h
      refine ⟨y.restrict targets, List.mem_map_of_mem hy, ?_⟩
      rw [linesAs_restrict, Finset.mem_filter]
      exact ⟨hly, ht⟩

/-- An intersection of restricted tables is the restricted intersection, since every line that is
compared is about one target. -/
theorem intersection_restrict (ownPath : Bool) (tables : List Table) :
    intersection ownPath (tables.map (restrict targets)) =
      (intersection ownPath tables).map (restrict targets) := by
  cases tables with
  | nil => rfl
  | cons first rest =>
    have hl := commonLayout_restrict targets (first :: rest) ownPath
    rw [List.map_cons] at hl
    rw [List.map_cons, intersection, intersection, hl, Option.map_some, Option.some.injEq]
    refine Table.ext rfl (Finset.ext fun l => ?_)
    rw [mem_restrict, mem_intersectionAs, mem_intersectionAs, ← List.map_cons, List.forall_mem_map]
    simp only [linesAs_restrict, Finset.mem_filter]
    constructor
    · -- what the line is about can be read off the first table, and there is one
      intro h
      exact ⟨fun y hy => (h y hy).1, (h first (List.mem_cons_self ..)).2⟩
    · intro h y hy
      exact ⟨h.1 y hy, h.2⟩

/-- Restricting parts restricts their tables. -/
theorem tablesOf_restrict (parts : List Part) :
    tablesOf (parts.map (Part.restrict targets)) = (tablesOf parts).map (restrict targets) := by
  unfold tablesOf
  rw [List.filterMap_map, List.map_filterMap]
  rfl

/-- It does not change which parts set a path. -/
theorem ownPathOf_restrict (parts : List Part) :
    ownPathOf (parts.map (Part.restrict targets)) = ownPathOf parts := by
  unfold ownPathOf
  rw [List.any_map]
  refine congrArg parts.any (funext fun p => ?_)
  simp [Part.restrict]

/-- What a conjunction makes of restricted members is restricted. -/
theorem unite_restrict (parts : List Part) :
    unite (parts.map (Part.restrict targets)) = (unite parts).map (restrict targets) := by
  rw [unite, tablesOf_restrict, ownPathOf_restrict, union_restrict, ← unite]

/-- So is what it makes of every branch. -/
theorem filterMap_unite_restrict (branches : List (List Part)) :
    (branches.map fun b => b.map (Part.restrict targets)).filterMap unite =
      (branches.filterMap unite).map (restrict targets) := by
  rw [List.filterMap_map, List.map_filterMap]
  refine congrArg (fun f => branches.filterMap f) (funext fun b => ?_)
  exact unite_restrict b

/-- So is the intersection of branches. -/
theorem intersect_restrict (branches : List (List Part)) :
    intersect (branches.map fun b => b.map (Part.restrict targets)) =
      (intersect branches).map (restrict targets) := by
  have hown :
      ((branches.map fun b => b.map (Part.restrict targets)).any fun b => b.any Part.ownPath) =
        branches.any fun b => b.any Part.ownPath := by
    rw [List.any_map]
    refine congrArg branches.any (funext fun b => ?_)
    rw [Function.comp, List.any_map]
    rfl
  rw [intersect, hown, filterMap_unite_restrict, intersection_restrict, ← intersect]

/-- Either there is a single branch with a single member, or there is not. -/
theorem single_or {α : Type} (branches : List (List α)) :
    (∃ p, branches = [[p]]) ∨ ∀ p, branches ≠ [[p]] := by
  by_cases h : ∃ p, branches = [[p]]
  · exact .inl h
  · exact .inr fun p hp => h ⟨p, hp⟩

/-- Related items are related as branches with a single member. -/
theorem forall₂_singletons {α β : Type} {R : α → β → Prop} {as : List α} {bs : List β}
    (h : List.Forall₂ R as bs) :
    List.Forall₂ (List.Forall₂ R) (as.map fun a => [a]) (bs.map fun b => [b]) :=
  List.rel_map (fun _ _ hab => .cons hab .nil) h

/-- Branches that are related member by member agree on whether there is a single one. -/
theorem single_or_of_forall₂ {α β : Type} {R : α → β → Prop} {as : List (List α)}
    {bs : List (List β)} (h : List.Forall₂ (List.Forall₂ R) as bs) :
    (∃ a b, as = [[a]] ∧ bs = [[b]] ∧ R a b) ∨ (∀ a, as ≠ [[a]]) ∧ ∀ b, bs ≠ [[b]] := by
  rcases single_or as with ⟨a, rfl⟩ | hs
  · obtain ⟨c, _, hc, hnil, rfl⟩ := List.forall₂_cons_left_iff.1 h
    obtain ⟨b, _, hab, hnil', rfl⟩ := List.forall₂_cons_left_iff.1 hc
    obtain rfl := List.forall₂_nil_left_iff.1 hnil
    obtain rfl := List.forall₂_nil_left_iff.1 hnil'
    exact .inl ⟨a, b, rfl, rfl, hab⟩
  · refine .inr ⟨hs, ?_⟩
    intro b heq
    subst heq
    obtain ⟨c, _, hc, hnil, rfl⟩ := List.forall₂_cons_right_iff.1 h
    obtain ⟨a, _, -, hnil', rfl⟩ := List.forall₂_cons_right_iff.1 hc
    obtain rfl := List.forall₂_nil_right_iff.1 hnil
    obtain rfl := List.forall₂_nil_right_iff.1 hnil'
    exact hs a rfl

/-- Unless a single member is forwarded, a disjunction intersects its branches. -/
theorem disjoin_eq_intersect {branches : List (List Part)} (h : ∀ p, branches ≠ [[p]]) :
    disjoin branches = intersect branches := by
  unfold disjoin
  split
  · next p => exact absurd rfl (h p)
  · rfl

/-- What a disjunction makes of restricted branches is restricted. -/
theorem disjoin_restrict (branches : List (List Part)) :
    disjoin (branches.map fun b => b.map (Part.restrict targets)) =
      (disjoin branches).map (restrict targets) := by
  rcases single_or branches with ⟨p, rfl⟩ | hs
  · rfl
  · rw [disjoin_eq_intersect hs, disjoin_eq_intersect, intersect_restrict]
    -- cutting does not change how many branches and members there are
    intro p hp
    match branches, hp with
    | [[q]], _ => exact hs q rfl

end Table

end GraphShapes
