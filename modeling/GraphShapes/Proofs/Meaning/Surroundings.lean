import GraphShapes.Proofs.Meaning.Limit

/-!
# The surroundings of a plan

What a plan delivers, and how much work that is, depends on the splitters around it, and only on
those that it reads (`Plan.same`).
-/

namespace GraphShapes

/-- What the splitters deliver, and at most how many rows. -/
structure Surroundings where
  delivered : SplitterId → Except OpError RowFeed
  limit : SplitterId → Nat

/-- No splitter delivers more rows than it is said to. -/
def Surroundings.Bounded (around : Surroundings) : Prop :=
  ∀ s, Except.AtMost Feed.length (around.limit s) (around.delivered s)

/-- A plan is the same in two surroundings. -/
structure Plan.Same (around around' : Surroundings) (plan : Plan) : Prop where
  meaning : plan.meaning around.delivered = plan.meaning around'.delivered
  limit : plan.limit around.limit = plan.limit around'.limit
  load : plan.load around.limit = plan.load around'.limit

/-- Each of several plans is the same in two surroundings. -/
structure Plan.AllSame (around around' : Surroundings) (plans : List Plan) : Prop where
  meanings : Plan.meanings around.delivered plans = Plan.meanings around'.delivered plans
  limits : Plan.limits around.limit plans = Plan.limits around'.limit plans
  loads : Plan.loads around.limit plans = Plan.loads around'.limit plans

namespace Plan

variable {around around' : Surroundings}

mutual

/-- Only the splitters that a plan reads matter to it. -/
theorem same : ∀ plan : Plan, (∀ s ∈ plan.readSplitters,
    around.delivered s = around'.delivered s ∧ around.limit s = around'.limit s) →
      plan.Same around around'
  -- an operator does the same to equal inputs, and only a reader looks at a splitter
  | empty _, _ => ⟨rfl, rfl, rfl⟩
  | values .., _ => ⟨rfl, rfl, rfl⟩
  | probe _, _ => ⟨rfl, rfl, rfl⟩
  | targetScan _, _ => ⟨rfl, rfl, rfl⟩
  | reader s _, h => ⟨(h s (List.mem_singleton_self s)).1, (h s (List.mem_singleton_self s)).2, rfl⟩
  | valuesOf targets source path, h => by
    have hi := same targets h
    constructor <;> simp only [meaning, limit, load, hi.meaning, hi.limit, hi.load]
  | countValues targets vs _ test, h => by
    have hl := same targets fun s hs => h s (List.mem_append_left _ hs)
    have hr := same vs fun s hs => h s (List.mem_append_right _ hs)
    constructor <;> simp only [meaning, limit, load, hl.meaning, hl.limit, hl.load, hr.meaning,
      hr.limit, hr.load]
  | filter input _ _, h => by
    have hi := same input h
    constructor <;> simp only [meaning, limit, load, hi.meaning, hi.limit, hi.load]
  | trim input _, h => by
    have hi := same input h
    constructor <;> simp only [meaning, limit, load, hi.meaning, hi.limit, hi.load]
  | sort input, h => by
    have hi := same input h
    constructor <;> simp only [meaning, limit, load, hi.meaning, hi.limit, hi.load]
  | unique input _, h => by
    have hi := same input h
    constructor <;> simp only [meaning, limit, load, hi.meaning, hi.limit, hi.load]
  | union inputs, h => by
    have hi := allSame inputs h
    constructor <;> simp only [meaning, limit, load, hi.meanings, hi.limits, hi.loads]
  | tag input _, h => by
    have hi := same input h
    constructor <;> simp only [meaning, limit, load, hi.meaning, hi.limit, hi.load]
  | relabel input _, h => by
    have hi := same input h
    constructor <;> simp only [meaning, limit, load, hi.meaning, hi.limit, hi.load]
  | equalsJoin left right _, h => by
    have hl := same left fun s hs => h s (List.mem_append_left _ hs)
    have hr := same right fun s hs => h s (List.mem_append_right _ hs)
    constructor <;> simp only [meaning, limit, load, hl.meaning, hl.limit, hl.load, hr.meaning,
      hr.limit, hr.load]
  | innerJoin left right, h => by
    have hl := same left fun s hs => h s (List.mem_append_left _ hs)
    have hr := same right fun s hs => h s (List.mem_append_right _ hs)
    constructor <;> simp only [meaning, limit, load, hl.meaning, hl.limit, hl.load, hr.meaning,
      hr.limit, hr.load]
  | antiJoin left right, h => by
    have hl := same left fun s hs => h s (List.mem_append_left _ hs)
    have hr := same right fun s hs => h s (List.mem_append_right _ hs)
    constructor <;> simp only [meaning, limit, load, hl.meaning, hl.limit, hl.load, hr.meaning,
      hr.limit, hr.load]

theorem allSame : ∀ plans : List Plan, (∀ s ∈ allReadSplitters plans,
    around.delivered s = around'.delivered s ∧ around.limit s = around'.limit s) →
      AllSame around around' plans
  | [], _ => ⟨rfl, rfl, rfl⟩
  | p :: rest, h => by
    have hp := same p fun s hs => h s (List.mem_append_left _ hs)
    have hrest := allSame rest fun s hs => h s (List.mem_append_right _ hs)
    constructor <;> simp only [meanings, limits, loads, hp.meaning, hp.limit, hp.load,
      hrest.meanings, hrest.limits, hrest.loads]

end

end Plan

end GraphShapes
