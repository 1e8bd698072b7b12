import GraphShapes.Proofs.Cursor.Failure
import GraphShapes.Proofs.Cursor.Sound

/-!
# What makes a step right

A step of a cursor is right (`Cursor.Step.Right`) if it brings what is in front of the cursor's feed,
leaves a cursor with the rest of it, and leaves the pool sound; where it brings nothing yet, it makes
progress. Opening a plan is right (`Cursor.Opened.Right`) if the cursor has the plan's meaning for its
feed.

A failure is the end of a cursor. Behind it nothing is claimed but which splitters may have changed.

An operator with one input (`Cursor.Operator`) steps rightly where its input does: what it makes of a
row says whether it delivers it or keeps it to itself, and the other outcomes it passes on.
-/

namespace GraphShapes

section Right

variable (around : Surroundings) (R : SplitterId → Prop)

/-- The second cursor comes from the first by work of which so much has been spent. -/
structure Cursor.Follows (c : Cursor) (pool : Pool) (spent : Nat) (c' : Cursor) (pool' : Pool) : Prop
    extends Pool.Moves around R pool pool' where
  reads : c'.Reads R pool'.StartedAt
  work : c'.work around + pool'.work around + spent ≤ c.work around + pool.work around

/-- What makes a step of a cursor right. -/
def Cursor.Step.Right (c : Cursor) (pool : Pool) : Cursor.Step → Prop
  | (.row r, c', pool') =>
    c.feed around = .next r (c'.feed around) ∧ c.Follows around R pool 0 c' pool'
  | (.ended, c', pool') => c.feed around = .done ∧ c'.feed around = .done ∧
    c.Follows around R pool 0 c' pool'
  | (.busy, c', pool') => c.feed around = c'.feed around ∧ c.Follows around R pool 1 c' pool'
  | (.failed e, _, pool') => c.feed around = .failed e ∧ pool.Touches R pool'

/-- What makes the opening of a plan right. -/
def Cursor.Opened.Right (plan : Plan) (pool : Pool) : Cursor.Opened → Prop
  | (.ok c, pool') => plan.meaning around.delivered = .ok (c.feed around) ∧
    pool.Moves around R pool' ∧ c.Reads R pool'.StartedAt ∧
      c.work around + pool'.work around ≤ plan.load around.limit + pool.work around
  | (.error e, pool') => plan.meaning around.delivered = .error e ∧ pool.Touches R pool'

/-- What makes the opening of several plans right; some cursors are in front of theirs. -/
def Plan.OpenedAllRight (plans : List Plan) (before : List Cursor) (pool : Pool) :
    Except OpError (List Cursor) × Pool → Prop
  | (.ok cursors, pool') => ∃ opened, cursors = before.reverse ++ opened ∧
    Plan.meanings around.delivered plans = .ok (opened.map fun c => c.feed around) ∧
      pool.Moves around R pool' ∧ (∀ c ∈ opened, c.Reads R pool'.StartedAt) ∧
      (opened.map fun c => c.work around).sum + pool'.work around ≤
        Plan.loads around.limit plans + pool.work around
  | (.error e, pool') => Plan.meanings around.delivered plans = .error e ∧ pool.Touches R pool'

/-- What makes a look at the next row right. Whatever a row in view counts for, looking costs. -/
def Lookahead.Look.Right (l : Lookahead) (pool : Pool) : Lookahead.Look → Prop
  | (none, l', pool') => l'.feed around = l.feed around ∧ pool.Moves around R pool' ∧
    l'.Reads R pool'.StartedAt ∧ ∀ view : Row → Nat, (∀ r, view r ≤ 5) →
      l'.workIn around view + pool'.work around < l.workIn around view + pool.work around
  | (some e, _, pool') => l.feed around = .failed e ∧ pool.Touches R pool'

/-- What makes a look at the first row that is not in view right. -/
def Lookahead.FirstLookRight (ls : List Lookahead) (pool : Pool) :
    Option (Option OpError × List Lookahead × Pool) → Prop
  | none => ∀ l ∈ ls, l.head ≠ .unknown
  | some (none, ls', pool') => Lookahead.feeds around ls' = Lookahead.feeds around ls ∧
    pool.Moves around R pool' ∧ Lookahead.AllRead R pool'.StartedAt ls' ∧
      ∀ view : Row → Nat, (∀ r, view r ≤ 5) →
        Lookahead.worksIn around view ls' + pool'.work around <
          Lookahead.worksIn around view ls + pool.work around
  | some (some e, _, pool') =>
    RowFeed.mergeAll (Lookahead.feeds around ls) = .failed e ∧ pool.Touches R pool'

/-- The splitters below are used rightly. -/
structure Access.Right (access : Access) : Prop where
  start : ∀ (s : SplitterId) (layout : Layout) (pool : Pool), R s → pool.SoundOn around R →
    Cursor.Opened.Right around R (.reader s layout) pool ((Plan.reader s layout).opened access pool)
  read : ∀ (s : SplitterId) (position : Nat) (pool : Pool), R s → pool.StartedAt s position →
    pool.SoundOn around R → Cursor.Step.Right around R (.reader s position false) pool
      ((Cursor.reader s position false).step access pool)

end Right

variable {around : Surroundings} {R : SplitterId → Prop}

/-! ## Operators with one input -/

namespace Cursor

variable {pool pool' : Pool} {c c' input input' : Cursor}

variable (around R) in
/-- An operator over a cursor: what it makes of the feed of the cursor, and how many steps it is busy
with that feed itself. -/
structure Operator (op : Cursor → Cursor) (f : RowFeed → RowFeed) (own : RowFeed → Nat) : Prop where
  feed : ∀ c, (op c).feed around = f (c.feed around)
  work : ∀ c, (op c).work around = c.work around + own (c.feed around)
  reads : ∀ c started, c.Reads R started → (op c).Reads R started

section

variable (around R)

theorem operator_values (source : Source) (path : Option Path) (queue : List Row) :
    Operator around R (fun c => .values c source path queue)
      (fun feed => Feed.prepend queue (feed.expand (Path.rowsOf source path))) Feed.length :=
  ⟨fun _ => rfl, fun _ => rfl, fun _ _ h => h⟩

theorem operator_filter (keep : Row → Bool) :
    Operator around R (fun c => .filter c keep) (Feed.filter keep) Feed.length :=
  ⟨fun _ => rfl, fun _ => rfl, fun _ _ h => h⟩

theorem operator_mapped (change : Row → Row) :
    Operator around R (fun c => .mapped c change) (Feed.map change) fun _ => 0 :=
  ⟨fun _ => rfl, fun _ => rfl, fun _ _ h => h⟩

theorem operator_unique (width : Option Nat) (seen : List (List Term)) :
    Operator around R (fun c => .unique c width seen) (RowFeed.uniqueFrom width seen) Feed.length :=
  ⟨fun _ => rfl, fun _ => rfl, fun _ _ h => h⟩

theorem operator_sorting (arrived : List Row) :
    Operator around R (fun c => .sorting c arrived)
      (fun feed => RowFeed.sorted (Feed.prepend arrived.reverse feed)) fun feed => feed.length + 1 :=
  ⟨fun _ => rfl, fun _ => rfl, fun _ _ h => h⟩

/-- What somebody takes over who has not looked ahead. -/
theorem operator_ahead :
    Operator around R (fun c => .ahead (.mk c .unknown)) (fun feed => feed) fun _ => 0 :=
  ⟨fun _ => rfl, fun _ => rfl, fun _ _ h => ⟨Head.noConfusion, h⟩⟩

end

/-- An operator that fails is closed. -/
theorem failing_right {e : OpError} (hfeed : c.feed around = .failed e)
    (htouches : pool.Touches R pool') : Step.Right around R c pool (c'.failing e pool') :=
  ⟨hfeed, htouches.trans ((c'.failing_closes e pool').touches R)⟩

namespace Operator

variable {op op' : Cursor → Cursor} {f f' : RowFeed → RowFeed} {own own' : RowFeed → Nat} {r r' : Row}

/-- The work of the operator is beside that of its input. -/
theorem follows (hop : Operator around R op f own) (hop' : Operator around R op' f' own')
    {spent spent' : Nat} (h : input.Follows around R pool spent input' pool')
    (hown : own' (input'.feed around) + spent' ≤ own (input.feed around) + spent) :
    (op input).Follows around R pool spent' (op' input') pool' := by
  refine ⟨h.toMoves, hop'.reads _ _ h.reads, ?_⟩
  have hwork := h.work
  rw [hop.work, hop'.work]
  omega

/-- The operator makes a row of the row of its input. -/
theorem row (hop : Operator around R op f own) (hop' : Operator around R op' f' own')
    (h : Step.Right around R input pool (.row r, input', pool'))
    (hnext : ∀ rest, f (.next r rest) = .next r' (f' rest))
    (hown : ∀ rest, own' rest ≤ own (.next r rest)) :
    Step.Right around R (op input) pool (.row r', op' input', pool') := by
  obtain ⟨hrow, h⟩ := h
  refine ⟨by rw [hop.feed, hop'.feed, hrow, hnext], hop.follows hop' h ?_⟩
  rw [hrow]
  exact hown _

/-- The operator keeps the row of its input to itself, and is done with it. -/
theorem skip (hop : Operator around R op f own) (hop' : Operator around R op' f' own')
    (h : Step.Right around R input pool (.row r, input', pool'))
    (hnext : ∀ rest, f (.next r rest) = f' rest)
    (hown : ∀ rest, own' rest + 1 ≤ own (.next r rest)) :
    Step.Right around R (op input) pool (.busy, op' input', pool') := by
  obtain ⟨hrow, h⟩ := h
  refine ⟨by rw [hop.feed, hop'.feed, hrow, hnext], hop.follows hop' h ?_⟩
  rw [hrow]
  exact hown _

theorem busy (hop : Operator around R op f own)
    (h : Step.Right around R input pool (.busy, input', pool')) :
    Step.Right around R (op input) pool (.busy, op input', pool') := by
  obtain ⟨hsame, h⟩ := h
  refine ⟨by rw [hop.feed, hop.feed, hsame], hop.follows hop h ?_⟩
  rw [hsame]

theorem ended (hop : Operator around R op f own) (hdone : f .done = .done)
    (h : Step.Right around R input pool (.ended, input', pool')) :
    Step.Right around R (op input) pool (.ended, op input', pool') := by
  obtain ⟨hfeed, hfeed', h⟩ := h
  refine ⟨by rw [hop.feed, hfeed, hdone], by rw [hop.feed, hfeed', hdone], hop.follows hop h ?_⟩
  rw [hfeed, hfeed']

theorem failing (hop : Operator around R op f own) {e : OpError} (hfailed : f (.failed e) = .failed e)
    (h : Step.Right around R input pool (.failed e, input', pool')) (c : Cursor) :
    Step.Right around R (op input) pool (c.failing e pool') :=
  failing_right (by rw [hop.feed, h.1, hfailed]) h.2

/-- The operator steps rightly where its input does, if it handles rows rightly. -/
theorem handled (hop : Operator around R op f own) (hdone : f .done = .done)
    (hfailed : ∀ e, f (.failed e) = .failed e) {step : Step}
    (h : Step.Right around R input pool step) {onRow : Row → Cursor → Pool → Step}
    (hrow : ∀ r c pool', Step.Right around R input pool (.row r, c, pool') →
      Step.Right around R (op input) pool (onRow r c pool')) :
    Step.Right around R (op input) pool (step.handled op onRow) := by
  obtain ⟨outcome, c, pool'⟩ := step
  cases outcome with
  | row r => exact hrow r c pool' h
  | failed e => exact hop.failing (hfailed e) h _
  | ended => exact hop.ended hdone h
  | busy => exact hop.busy h

end Operator

end Cursor

end GraphShapes
