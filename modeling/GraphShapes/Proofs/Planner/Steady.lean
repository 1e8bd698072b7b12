import GraphShapes.Proofs.Planner.Mirror
import GraphShapes.Proofs.Target.Steady

/-!
# Plans over sources that fail

`Plan.steady` puts steady sources into a plan and leaves its operators as they are. What the plan
delivers goes along with what it delivers over the steady sources (`Plan.feedIn_upto`): the same
rows up to a failure, or the same rows and the same end. The operators make no difference to that,
nor do splitters, however many readers they have.
-/

namespace GraphShapes

namespace Plan

mutual

/-- The plan with the same operators over sources that answer every scan. -/
def steady : Plan → Plan
  | empty l => empty l
  | values rows l => values rows l
  | probe p => probe p
  | targetScan scan => targetScan scan.steady
  | reader s l => reader s l
  | valuesOf targets source path => valuesOf targets.steady source.steady path
  | countValues targets vs label test => countValues targets.steady vs.steady label test
  | filter input label keep => filter input.steady label keep
  | trim input width => trim input.steady width
  | sort input => sort input.steady
  | unique input width => unique input.steady width
  | union inputs => union (allSteady inputs)
  | tag input shape => tag input.steady shape
  | relabel input l => relabel input.steady l
  | equalsJoin left right allColumns => equalsJoin left.steady right.steady allColumns
  | innerJoin left right => innerJoin left.steady right.steady
  | antiJoin left right => antiJoin left.steady right.steady

def allSteady : List Plan → List Plan
  | [] => []
  | p :: rest => p.steady :: allSteady rest

end

/-- The inputs of a union are made steady one by one. -/
theorem allSteady_eq_map (ps : List Plan) : allSteady ps = ps.map steady := by
  induction ps with
  | nil => rfl
  | cons p ps ih => rw [allSteady, ih, List.map_cons]

theorem steady_union (ps : List Plan) : (union ps).steady = union (ps.map steady) := by
  rw [steady, allSteady_eq_map]

mutual

/-- Conditions change no operator, and steady sources answer under all of them. -/
theorem steady_during : ∀ (p : Plan) (c : Conditions), (p.during c).steady = p.steady
  | empty _, _ => rfl
  | values _ _, _ => rfl
  | probe _, _ => rfl
  | targetScan scan, c => congrArg targetScan (scan.steady_during c)
  | reader _ _, _ => rfl
  | valuesOf targets source path, _ =>
    congrArg (valuesOf · source.steady path) (targets.steady_during _)
  | countValues targets vs label test, _ =>
    congrArg₂ (countValues · · label test) (targets.steady_during _) (vs.steady_during _)
  | filter input label keep, _ => congrArg (filter · label keep) (input.steady_during _)
  | trim input width, _ => congrArg (trim · width) (input.steady_during _)
  | sort input, _ => congrArg sort (input.steady_during _)
  | unique input width, _ => congrArg (unique · width) (input.steady_during _)
  | union inputs, c => congrArg union (allSteady_during inputs c)
  | tag input shape, _ => congrArg (tag · shape) (input.steady_during _)
  | relabel input l, _ => congrArg (relabel · l) (input.steady_during _)
  | equalsJoin left right allColumns, _ =>
    congrArg₂ (equalsJoin · · allColumns) (left.steady_during _) (right.steady_during _)
  | innerJoin left right, _ => congrArg₂ innerJoin (left.steady_during _) (right.steady_during _)
  | antiJoin left right, _ => congrArg₂ antiJoin (left.steady_during _) (right.steady_during _)

/-- Conditions on the inputs of a union leave their steady form as it is. -/
theorem allSteady_during : ∀ (ps : List Plan) (c : Conditions),
    allSteady (allDuring ps c) = allSteady ps
  | [], _ => rfl
  | p :: ps, _ => congrArg₂ List.cons (p.steady_during _) (allSteady_during ps _)

end

/-- Conditions on splitters leave their steady form as it is. -/
theorem map_steady_during (ss : Splitters) (c : Conditions) :
    (ss.during c).map steady = ss.map steady := by
  refine Array.ext (by simp [Splitters.during]) fun s _ _ => ?_
  simp [Splitters.during, steady_during]

/-- The layout does not depend on sources. -/
@[simp] theorem layout_steady : ∀ p : Plan, p.steady.layout = p.layout
  | empty _ => rfl
  | values _ _ => rfl
  | probe _ => rfl
  | targetScan _ => rfl
  | reader _ _ => rfl
  | valuesOf _ _ _ => rfl
  | countValues _ _ _ _ => rfl
  | filter input _ _ => layout_steady input
  | trim input width => by rw [steady, layout, layout, layout_steady input]
  | sort input => layout_steady input
  | unique input _ => layout_steady input
  | union [] => rfl
  | union (first :: _) => layout_steady first
  | tag input _ => layout_steady input
  | relabel _ _ => rfl
  | equalsJoin left _ _ => layout_steady left
  | innerJoin _ _ => rfl
  | antiJoin left _ => layout_steady left

/-- A union that is not refused is not refused over steady sources. -/
theorem union?_steady {ps : List Plan} {p : Plan} (h : union? ps = .ok p) :
    union? (ps.map steady) = .ok p.steady := by
  cases ps with
  | nil => cases h
  | cons first rest =>
    rw [union?] at h
    cases hfind : rest.find? fun p => p.layout ≠ first.layout with
    | some odd =>
      rw [hfind] at h
      cases h
    | none =>
      rw [hfind] at h
      obtain rfl := Except.ok.inj h
      have hsteady : ((rest.map steady).find? fun p => p.layout ≠ first.steady.layout) = none := by
        rw [List.find?_eq_none] at hfind ⊢
        simpa using hfind
      rw [List.map_cons, union?, hsteady, steady_union, List.map_cons]

/-! ## What they deliver -/

section Meaning

variable {splitter splitter' : SplitterId → Except OpError RowFeed}

/-- The feed of a plan goes along with another. -/
abbrev FeedUpto (x y : Except OpError RowFeed) : Prop := Except.Upto Feed.Upto x y

theorem FeedUpto.refl (x : Except OpError RowFeed) : FeedUpto x x := fun feed h => ⟨feed, h, .refl feed⟩

/-- An operator over one input, which fails with it. -/
theorem FeedUpto.map {x y : Except OpError RowFeed} (h : FeedUpto x y) {f g : RowFeed → RowFeed}
    (hf : ∀ feed feed' : RowFeed, feed.Upto feed' → (f feed).Upto (g feed')) :
    FeedUpto (do return f (← x)) (do return g (← y)) :=
  h.bind fun _ _ hfeed => .pure (hf _ _ hfeed)

/-- An operator over two inputs, of which the left one is opened first. -/
theorem FeedUpto.both {x x' y y' : Except OpError RowFeed} (h : FeedUpto x x')
    (h' : FeedUpto y y') {f : RowFeed → RowFeed → RowFeed}
    (hf : ∀ l l' r r' : RowFeed, l.Upto l' → r.Upto r' → (f l r).Upto (f l' r')) :
    FeedUpto (do let l ← x; return f l (← y)) (do let l ← x'; return f l (← y')) :=
  h.bind fun _ _ hl => h'.bind fun _ _ hr => .pure (hf _ _ _ _ hl hr)

/-- A sort reports the failure to open its input at its first row. -/
theorem FeedUpto.sort {input input' : Plan}
    (h : FeedUpto (input.meaning splitter) (input'.meaning splitter')) :
    FeedUpto ((Plan.sort input).meaning splitter) ((Plan.sort input').meaning splitter') := by
  rw [meaning, meaning]
  cases hfeed : input.meaning splitter with
  | error e => cases input'.meaning splitter' <;> exact .pure (.failed e _)
  | ok feed =>
    obtain ⟨feed', hfeed', hupto⟩ := h feed hfeed
    rw [hfeed']
    exact .pure (RowFeed.sorted_upto hupto)

mutual

/-- What a plan delivers goes along with what it delivers over steady sources. -/
theorem meaning_upto (h : ∀ s, FeedUpto (splitter s) (splitter' s)) : ∀ p : Plan,
    FeedUpto (p.meaning splitter) (p.steady.meaning splitter')
  | empty _ => .refl _
  | values _ _ => .refl _
  | probe _ => .refl _
  | targetScan scan => .pure scan.rows_upto
  | reader s _ => h s
  | valuesOf targets source path =>
    (meaning_upto h targets).map fun _ _ hfeed => hfeed.expand (Path.rowsOf_upto source path)
  | countValues targets vs _ test =>
    (meaning_upto h targets).both (meaning_upto h vs) fun _ _ _ _ hl hr =>
      RowFeed.countValues_upto test hl hr
  | filter input _ keep => (meaning_upto h input).map fun _ _ hfeed => hfeed.filter keep
  | trim input width => (meaning_upto h input).map fun _ _ hfeed => hfeed.map (Row.trim width)
  | sort input => .sort (meaning_upto h input)
  | unique input width =>
    (meaning_upto h input).map fun _ _ hfeed => RowFeed.uniqueFrom_upto width hfeed []
  | union inputs => (meanings_upto h inputs).bind fun _ _ hfeeds => .pure (RowFeed.mergeAll_upto hfeeds)
  | tag input shape => (meaning_upto h input).map fun _ _ hfeed => hfeed.map (Row.tag shape)
  | relabel input _ => meaning_upto h input
  | equalsJoin left right _ =>
    (meaning_upto h left).both (meaning_upto h right) fun _ _ _ _ hl hr =>
      RowFeed.equalsJoin_upto _ hl hr
  | innerJoin left right =>
    (meaning_upto h left).both (meaning_upto h right) fun _ _ _ _ hl hr =>
      RowFeed.innerJoin_upto hl hr
  | antiJoin left right =>
    (meaning_upto h left).both (meaning_upto h right) fun _ _ _ _ hl hr =>
      RowFeed.antiJoin_upto hl hr

/-- The inputs of a union, one after the other. -/
theorem meanings_upto (h : ∀ s, FeedUpto (splitter s) (splitter' s)) : ∀ ps : List Plan,
    Except.Upto (List.Forall₂ Feed.Upto) (meanings splitter ps) (meanings splitter' (allSteady ps))
  | [] => .pure .nil
  | p :: ps => (meaning_upto h p).bind fun _ _ hfeed =>
    (meanings_upto h ps).bind fun _ _ hfeeds => .pure (.cons hfeed hfeeds)

end

end Meaning

/-- A splitter that is added last is found under the next number. -/
theorem delivered_table_push (table : Array (Except OpError RowFeed)) (x : Except OpError RowFeed)
    (s : SplitterId) : Splitters.delivered (table.push x) s =
      if s = table.size then x else Splitters.delivered table s := by
  unfold Splitters.delivered
  rw [Array.getD_eq_getD_getElem?, Array.getD_eq_getD_getElem?, Array.getElem?_push]
  by_cases hs : s = table.size
  · rw [if_pos hs, if_pos hs]
    rfl
  · rw [if_neg hs, if_neg hs]

/-- What one table of splitters delivers goes along with what the other does. -/
structure TableUpto (table table' : Array (Except OpError RowFeed)) : Prop where
  size : table.size = table'.size
  delivered : ∀ s, FeedUpto (Splitters.delivered table s) (Splitters.delivered table' s)

/-- Adding a splitter that goes along on both sides. -/
theorem TableUpto.push {table table' : Array (Except OpError RowFeed)} (h : TableUpto table table')
    {x y : Except OpError RowFeed} (hxy : FeedUpto x y) :
    TableUpto (table.push x) (table'.push y) where
  size := by rw [Array.size_push, Array.size_push, h.size]
  delivered s := by
    rw [delivered_table_push, delivered_table_push, ← h.size]
    by_cases hs : s = table.size
    · rw [if_pos hs, if_pos hs]
      exact hxy
    · rw [if_neg hs, if_neg hs]
      exact h.delivered s

/-- All splitters go along with those over steady sources, by induction over their number. -/
theorem meanings_steady (ss : Splitters) :
    TableUpto ss.meanings (Splitters.meanings (ss.map steady)) := by
  unfold Splitters.meanings
  rw [Array.foldl_map]
  refine Array.foldl_rel ⟨rfl, fun _ => .refl _⟩ fun supply _ table table' h => ?_
  exact h.push (supply.meaning_upto h.delivered)

/-- What a plan delivers among its splitters goes along with what it delivers over steady
sources. -/
theorem feedIn_upto (p : Plan) (ss : Splitters) :
    FeedUpto (p.feedIn ss) (p.steady.feedIn (ss.map steady)) :=
  p.meaning_upto (meanings_steady ss).delivered

end Plan

end GraphShapes
