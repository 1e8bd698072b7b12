import GraphShapes.Proofs.Cursor.Sweep
import GraphShapes.Proofs.RowFeed.Position

/-!
# Starting and reading a splitter

The equations of `Pool.start` and `Pool.read` by the state of the splitter, and what changing one
splitter does to the pool. `Splitter.Keeps` ties the rows that a splitter keeps to a feed: they are
its first rows, and the supply stands behind them.
-/

namespace GraphShapes

namespace Pool

variable {pool : Pool} {s : SplitterId} {splitter : Splitter}

/-- A change concerns the splitter that is changed. -/
@[simp]
theorem getElem?_change (pool : Pool) (s : SplitterId) (f : Splitter → Splitter) (t : SplitterId) :
    (pool.change s f).splitters[t]? =
      if s = t then pool.splitters[t]?.map f else pool.splitters[t]? := Array.getElem?_modify

/-- A pool with a splitter has an access that goes down by one. -/
theorem access_size (hs : pool.splitters[s]? = some splitter) :
    access pool.splitters.size = ⟨start (access (pool.splitters.size - 1)),
      read (access (pool.splitters.size - 1))⟩ := by
  obtain ⟨n, hn⟩ : ∃ n, pool.splitters.size = n + 1 :=
    ⟨pool.splitters.size - 1, by have := (Array.getElem?_eq_some_iff.1 hs).1; omega⟩
  rw [hn]
  rfl

end Pool

/-- A reader is opened by starting its splitter. -/
theorem Plan.opened_reader (access : Access) (s : SplitterId) (layout : Layout) (pool : Pool) :
    (Plan.reader s layout).opened access pool =
      ((access.start s pool).1.map fun _ => .reader s 0 false, (access.start s pool).2) := by
  rw [Plan.opened]
  generalize access.start s pool = started
  obtain ⟨result, pool'⟩ := started
  cases result <;> rfl

namespace Pool

variable {pool : Pool} {s : SplitterId} {splitter : Splitter}

/-- What is made of the supply of a splitter when it has been opened, or has refused. -/
def install (s : SplitterId) : Cursor.Opened → Except OpError Unit × Pool
  | (.ok c, pool) => (.ok (), pool.setSupply s (.opened c))
  | (.error e, pool) => (.error e, pool.setSupply s (.failed e))

/-- The reader of a splitter that nobody has opened opens its supply. -/
theorem start_waiting (below : Access) {plan : Plan} (hs : pool.splitters[s]? = some splitter)
    (hwaiting : splitter.supply = .waiting plan) :
    start below s pool =
      install s (plan.opened below (pool.change s fun splitter =>
        { splitter with supply := .ended, opens := splitter.opens + 1 })) := by
  have hplan : pool.waiting? s = some plan := by
    rw [waiting?, hs, Option.map_some, hwaiting]
  rw [start, hplan]
  simp only
  generalize plan.opened below _ = opened
  obtain ⟨result, pool'⟩ := opened
  cases result <;> rfl

/-- Opening a reader starts its splitter. -/
theorem openPlan_reader (layout : Layout) (hs : pool.splitters[s]? = some splitter) :
    pool.openPlan (.reader s layout) =
      ((start (access (pool.splitters.size - 1)) s (pool.prepare (.reader s layout))).1.map fun _ =>
          .reader s 0 false,
        (start (access (pool.splitters.size - 1)) s (pool.prepare (.reader s layout))).2) := by
  rw [openPlan, Plan.opened_reader, access_size hs]

/-- A later reader finds the splitter as it is. -/
theorem start_started (below : Access) (hs : pool.splitters[s]? = some splitter)
    (hstarted : ∀ plan, splitter.supply ≠ .waiting plan) :
    start below s pool = (.ok (), pool) := by
  have hnone : pool.waiting? s = none := by
    rw [waiting?, hs, Option.map_some]
    cases hsupply : splitter.supply with
    | waiting plan => exact absurd hsupply (hstarted plan)
    | _ => rfl
  rw [start, hnone]

/-- A row that is kept is delivered from the splitter. -/
theorem read_kept (below : Access) (hs : pool.splitters[s]? = some splitter) {position : Nat}
    {r : Row} (hr : splitter.cache[position]? = some r) :
    read below s position pool = (.row r, pool) := by
  rw [read, hs]
  simp only [hr]

/-- Behind the rows that are kept, the supply decides. -/
theorem read_behind (below : Access) (hs : pool.splitters[s]? = some splitter) {position : Nat}
    (hnone : splitter.cache[position]? = none) :
    read below s position pool =
      match splitter.supply with
      | .opened c => pool.pull below s c
      | .failed e => (.failed e, pool)
      | _ => (.ended, pool) := by
  rw [read, hs]
  simp only [hnone]
  cases splitter.supply <;> rfl

end Pool

/-- The reader after its splitter has been read. -/
def Outcome.readerAfter (s : SplitterId) (position : Nat) : Outcome → Cursor
  | row _ => .reader s (position + 1) false
  | failed _ => .reader s position true
  | _ => .reader s position false

/-- A reader hands on what its splitter brings. -/
theorem Cursor.step_reader (access : Access) (s : SplitterId) (position : Nat) (pool : Pool) :
    (Cursor.reader s position false).step access pool =
      ((access.read s position pool).1, (access.read s position pool).1.readerAfter s position,
        (access.read s position pool).2) := by
  rw [Cursor.step]
  generalize access.read s position pool = result
  obtain ⟨outcome, pool'⟩ := result
  cases outcome <;> rfl

/-- A step of a reader reads its splitter, with one depth less. -/
theorem Cursor.step_reader_of {pool pool' : Pool} {s : SplitterId} {splitter : Splitter}
    (hs : pool.splitters[s]? = some splitter) {position : Nat} {outcome : Outcome}
    (hread : Pool.read (Pool.access (pool.splitters.size - 1)) s position pool = (outcome, pool')) :
    (Cursor.reader s position false).step (Pool.access pool.splitters.size) pool =
      (outcome, outcome.readerAfter s position, pool') := by
  rw [step_reader, Pool.access_size hs]
  simp only [hread]

namespace Cursor

variable {c c' : Cursor} {pool pool' : Pool}

/-- A step that delivers a row answers the request for it. -/
theorem next_of_row {r : Row}
    (h : c.step (Pool.access pool.splitters.size) pool = (.row r, c', pool')) :
    c.next pool = (.ok (some r), c', pool') := by
  rw [next, nextWithin, h]

/-- So does a step that meets the end. -/
theorem next_of_ended
    (h : c.step (Pool.access pool.splitters.size) pool = (.ended, c', pool')) :
    c.next pool = (.ok none, c', pool') := by
  rw [next, nextWithin, h]

/-- So does a step that fails. -/
theorem next_of_failed {e : OpError}
    (h : c.step (Pool.access pool.splitters.size) pool = (.failed e, c', pool')) :
    c.next pool = (.error e, c', pool') := by
  rw [next, nextWithin, h]

end Cursor

/-- A request at a position behind which so many rows are kept brings what the feed has there, and the
pool is as the predicate says for the number of rows that are kept then. -/
def Pool.Answers (s : SplitterId) (feed : RowFeed) (after : Nat → Pool → Prop) (m position : Nat)
    (answer : Cursor.Answer) : Prop := ∃ pool',
  match feed.drop position with
  | .next r _ => answer = (.ok (some r), .reader s (position + 1) false, pool') ∧
    after (max m (position + 1)) pool'
  | .done => answer = (.ok none, .reader s position false, pool') ∧ after m pool'
  | .failed e => answer = (.error e, .reader s position true, pool') ∧ after m pool'

namespace Pool.Answers

variable {s : SplitterId} {feed : RowFeed} {after : Nat → Pool → Prop} {m position : Nat} {pool : Pool}

/-- A reader that gets a row moves one on. -/
theorem row {r : Row} {rest : RowFeed} (hfront : feed.drop position = .next r rest)
    (hafter : after (max m (position + 1)) pool) :
    Answers s feed after m position (.ok (some r), .reader s (position + 1) false, pool) := by
  refine ⟨pool, ?_⟩
  rw [hfront]
  exact ⟨rfl, hafter⟩

/-- A reader that meets the end stays where it is. -/
theorem ended (hfront : feed.drop position = .done) (hafter : after m pool) :
    Answers s feed after m position (.ok none, .reader s position false, pool) := by
  refine ⟨pool, ?_⟩
  rw [hfront]
  exact ⟨rfl, hafter⟩

/-- A reader that meets a failure is closed. -/
theorem failed {e : OpError} (hfront : feed.drop position = .failed e) (hafter : after m pool) :
    Answers s feed after m position (.error e, .reader s position true, pool) := by
  refine ⟨pool, ?_⟩
  rw [hfront]
  exact ⟨rfl, hafter⟩

end Pool.Answers

/-- A splitter keeps the first rows of a feed, and its supply stands behind them; the predicate says
what it is for an open supply to stand somewhere. -/
structure Splitter.Keeps (stands : Cursor → RowFeed → Prop) (feed : RowFeed) (m : Nat)
    (splitter : Splitter) : Prop where
  size : splitter.cache.size = m
  kept : ∀ (k : Nat) (r : Row), splitter.cache[k]? = some r → feed.answer k = .ok (some r)
  supply : match splitter.supply with
    | .waiting _ => False
    | .opened c => stands c (feed.drop m)
    | .ended => feed.drop m = .done
    | .failed e => feed.drop m = .failed e

namespace Splitter.Keeps

variable {stands : Cursor → RowFeed → Prop} {feed : RowFeed} {m : Nat} {splitter : Splitter}

/-- What is kept is what the feed delivers first. -/
theorem getElem?_of_lt (h : splitter.Keeps stands feed m) {k : Nat} (hk : k < m) :
    ∃ r, splitter.cache[k]? = some r ∧ feed.answer k = .ok (some r) := by
  have hlt : k < splitter.cache.size := h.size.symm ▸ hk
  exact ⟨splitter.cache[k], Array.getElem?_eq_getElem hlt, h.kept k _ (Array.getElem?_eq_getElem hlt)⟩

/-- A splitter that keeps rows has been started. -/
theorem started (h : splitter.Keeps stands feed m) (plan : Plan) : splitter.supply ≠ .waiting plan := by
  intro hplan
  have hsupply := h.supply
  rw [hplan] at hsupply
  exact hsupply

/-- Later consumers do not open the supply again. -/
theorem openPlan_eq (h : splitter.Keeps stands feed m) {s : SplitterId} {pool : Pool}
    (hs : pool.splitters[s]? = some splitter) (layout : Layout) :
    pool.openPlan (.reader s layout) = (.ok (.reader s 0 false), pool.prepare (.reader s layout)) := by
  have hs' : (pool.prepare (.reader s layout)).splitters[s]? = some splitter := hs
  rw [Pool.openPlan_reader layout hs, Pool.start_started _ hs' h.started]
  rfl

/-- No more is kept than the feed delivers. -/
theorem within (h : splitter.Keeps stands feed m) : m ≤ feed.length := by
  cases m with
  | zero => exact Nat.zero_le _
  | succ k =>
    obtain ⟨r, -, hr⟩ := h.getElem?_of_lt (Nat.lt_succ_self k)
    exact Feed.answer_eq_some_iff.1 ⟨r, hr⟩

/-- Behind what is kept there is nothing yet. -/
theorem getElem?_size (h : splitter.Keeps stands feed m) : splitter.cache[m]? = none :=
  Array.getElem?_eq_none (Nat.le_of_eq h.size)

/-- One more row is kept. -/
theorem push (h : splitter.Keeps stands feed m) {r : Row} {rest : RowFeed}
    (hr : feed.drop m = .next r rest) {stands' : Cursor → RowFeed → Prop} {c : Cursor}
    (hc : stands' c (feed.drop (m + 1))) :
    Splitter.Keeps stands' feed (m + 1)
      { splitter with supply := .opened c, cache := splitter.cache.push r } where
  size := by rw [Array.size_push, h.size]
  kept k r' hr' := by
    rw [Array.getElem?_push] at hr'
    split at hr'
    · rename_i hk
      obtain rfl := Option.some.inj hr'
      rw [hk, h.size, Feed.answer_eq_drop h.within, hr]
      rfl
    · exact h.kept k r' hr'
  supply := hc

/-- A reader in front of the last row that is kept gets its row from the splitter. -/
theorem read_lt (h : splitter.Keeps stands feed m) (lower : Access) {s : SplitterId} {pool : Pool}
    (hs : pool.splitters[s]? = some splitter) {position : Nat} (hlt : position < m) :
    ∃ r, Pool.read lower s position pool = (.row r, pool) ∧
      feed.drop position = .next r (feed.drop (position + 1)) := by
  obtain ⟨r, hr, hanswer⟩ := h.getElem?_of_lt hlt
  refine ⟨r, Pool.read_kept lower hs hr, ?_⟩
  rw [Feed.answer_eq_drop (by have := h.within; omega)] at hanswer
  cases hfront : feed.drop position with
  | done => simp [hfront, Feed.answer] at hanswer
  | failed e => simp [hfront, Feed.answer] at hanswer
  | next r' rest =>
    obtain rfl : r' = r := by simpa [hfront, Feed.answer] using hanswer
    rw [Feed.drop_succ hfront]

/-- Where nothing has to be pulled out of the supply, a consumer gets what is kept. -/
theorem next_held (h : splitter.Keeps stands feed m) {s : SplitterId} {pool : Pool}
    (hs : pool.splitters[s]? = some splitter) {position : Nat} (hposition : position ≤ m)
    (hheld : position < m ∨ ∀ c, splitter.supply ≠ .opened c) {after : Nat → Pool → Prop}
    (hafter : after m pool) :
    Pool.Answers s feed after m position ((Cursor.reader s position false).next pool) := by
  by_cases hlt : position < m
  · obtain ⟨r, hread, hfront⟩ := h.read_lt (Pool.access (pool.splitters.size - 1)) hs hlt
    rw [Cursor.next_of_row (Cursor.step_reader_of hs hread)]
    refine .row hfront ?_
    rwa [Nat.max_eq_left hlt]
  · obtain rfl : position = m := by omega
    -- behind all rows that are kept, and the supply is at its end or has failed
    have hclosed := hheld.resolve_left hlt
    have hread := Pool.read_behind (Pool.access (pool.splitters.size - 1)) hs h.getElem?_size
    have hsupply := h.supply
    cases hstate : splitter.supply with
    | waiting plan => exact absurd hstate (h.started plan)
    | opened c => exact absurd hstate (hclosed c)
    | ended =>
      rw [hstate] at hread hsupply
      rw [Cursor.next_of_ended (Cursor.step_reader_of hs hread)]
      exact .ended hsupply hafter
    | failed e =>
      rw [hstate] at hread hsupply
      rw [Cursor.next_of_failed (Cursor.step_reader_of hs hread)]
      exact .failed hsupply hafter

end Splitter.Keeps

end GraphShapes
