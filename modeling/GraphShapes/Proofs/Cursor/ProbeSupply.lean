import GraphShapes.Proofs.Cursor.FanOut
import GraphShapes.Proofs.Cursor.Probe
import GraphShapes.Proofs.Cursor.Splitter

/-!
# Splitters over producers outside the library

The use of a producer outside the library is counted under its name. When it is the supply of a
splitter, however many consumers there are and in whatever order they ask, it is opened once and
serves exactly the rows that the splitter keeps (`Probe.tally_run`).
-/

namespace GraphShapes

namespace Probe

/-- Nobody has opened the splitter over a producer, and nobody has used the producer. -/
def Waits (p : Probe) (s : SplitterId) (pool : Pool) : Prop :=
  ∃ splitter, pool.splitters[s]? = some splitter ∧ splitter.supply = .waiting (.probe p) ∧
    splitter.opens = 0 ∧ splitter.cache = #[] ∧
    pool.log.countP (Event.isOpening p.name) = 0 ∧ pool.log.count (.served p.name) = 0

/-- The splitter over a producer keeps so many rows, which are the rows that it has served. -/
def Stands (p : Probe) (s : SplitterId) (m : Nat) (pool : Pool) : Prop :=
  ∃ splitter, pool.splitters[s]? = some splitter ∧ splitter.opens = 1 ∧
    splitter.Keeps (fun c feed => c = .probe p m false ∧ feed = p.feedFrom m)
      (Feed.orFailed p.meaning) m ∧
    pool.log.countP (Event.isOpening p.name) = 1 ∧ pool.log.count (.served p.name) = m

theorem first_stands {p : Probe} {s : SplitterId} {pool : Pool} (layout : Layout)
    (h : p.Waits s pool) : ∃ pool',
      pool.openPlan (.reader s layout) = (p.meaning.map fun _ => .reader s 0 false, pool') ∧
        p.Stands s 0 pool' := by
  obtain ⟨splitter, hs, hwaiting, hopens, hcache, hopenings, hserved⟩ := h
  have hs' : (pool.prepare (.reader s layout)).splitters[s]? = some splitter := hs
  rw [Pool.openPlan_reader layout hs, Pool.start_waiting _ hs' hwaiting, Plan.opened, Probe.opened,
    Probe.meaning]
  cases hrefusal : p.refusal with
  | none =>
    refine ⟨_, rfl, { splitter with supply := .opened (.probe p 0 false), opens := 1 }, ?_, rfl, ?_, ?_,
      ?_⟩
    · simp [Pool.install, Pool.setSupply, Pool.record, hs', hopens]
    · constructor
      case size => simp [hcache]
      case kept => simp [hcache]
      case supply =>
        simp [Probe.meaning, hrefusal, Feed.orFailed, feedFrom_zero]
    · simp [Pool.install, Pool.setSupply, Pool.change, Pool.record, Pool.prepare, hopenings,
        Event.isOpening]
    · simp [Pool.install, Pool.setSupply, Pool.change, Pool.record, Pool.prepare, hserved]
  | some e =>
    refine ⟨_, rfl, { splitter with supply := .failed e, opens := 1 }, ?_, rfl, ?_, ?_, ?_⟩
    · simp [Pool.install, Pool.setSupply, Pool.record, hs', hopens]
    · constructor
      case size => simp [hcache]
      case kept => simp [hcache]
      case supply => simp [Probe.meaning, hrefusal, Feed.orFailed]
    · simp [Pool.install, Pool.setSupply, Pool.change, Pool.record, Pool.prepare, hopenings,
        Event.isOpening]
    · simp [Pool.install, Pool.setSupply, Pool.change, Pool.record, Pool.prepare, hserved]

theorem later_stands {p : Probe} {s : SplitterId} {m : Nat} {pool : Pool} (layout : Layout)
    (h : p.Stands s m pool) : ∃ pool',
      pool.openPlan (.reader s layout) = (.ok (.reader s 0 false), pool') ∧ p.Stands s m pool' := by
  have h' : p.Stands s m (pool.prepare (.reader s layout)) := h
  obtain ⟨splitter, hs, -, hkeeps, -⟩ := h
  exact ⟨_, hkeeps.openPlan_eq hs layout, h'⟩

/-- The rows that are not kept are pulled out of the producer. -/
theorem next_stands {p : Probe} {s : SplitterId} {m position : Nat} {pool : Pool}
    (h : p.Stands s m pool) (hposition : position ≤ m) :
    Pool.Answers s (Feed.orFailed p.meaning) (p.Stands s) m position
      ((Cursor.reader s position false).next pool) := by
  have hself := h
  obtain ⟨splitter, hs, hopens, hkeeps, hopenings, hserved⟩ := h
  -- only a consumer that is in front, and not at an end, makes the producer move
  by_cases hheld : position < m ∨ ∀ c, splitter.supply ≠ .opened c
  · exact hkeeps.next_held hs hposition hheld hself
  · obtain ⟨hbehind, c, hstate⟩ : m ≤ position ∧ ∃ c, splitter.supply = .opened c := by
      simpa [not_or, Nat.not_lt] using hheld
    obtain rfl : position = m := Nat.le_antisymm hposition hbehind
    have hread := Pool.read_behind (Pool.access (pool.splitters.size - 1)) hs hkeeps.getElem?_size
    have hsupply := hkeeps.supply
    simp only [hstate] at hsupply hread
    obtain ⟨rfl, hfeed⟩ := hsupply
    -- the producer is where the rows that are kept end
    have hprobe := p.step_eq position pool
    rw [← hfeed] at hprobe
    rw [Pool.pull, Cursor.step] at hread
    cases hdrop : (Feed.orFailed p.meaning).drop position with
    | done =>
      rw [hdrop] at hprobe
      rw [hprobe] at hread
      rw [Cursor.next_of_ended (Cursor.step_reader_of hs hread)]
      refine .ended hdrop ⟨{ splitter with supply := .ended }, ?_, hopens,
        ⟨hkeeps.size, hkeeps.kept, hdrop⟩, ?_, ?_⟩
      · simp [Pool.setSupply, Pool.record, hs]
      · simpa [Pool.setSupply, Pool.change, Cursor.close, Pool.record, Event.isOpening] using hopenings
      · simpa [Pool.setSupply, Pool.change, Cursor.close, Pool.record] using hserved
    | failed e =>
      rw [hdrop] at hprobe
      rw [hprobe] at hread
      rw [Cursor.next_of_failed (Cursor.step_reader_of hs hread)]
      refine .failed hdrop ⟨{ splitter with supply := .failed e }, ?_, hopens,
        ⟨hkeeps.size, hkeeps.kept, hdrop⟩, ?_, ?_⟩
      · simp [Pool.setSupply, Pool.record, hs]
      · simpa [Pool.setSupply, Pool.change, Cursor.close, Pool.record, Event.isOpening] using hopenings
      · simpa [Pool.setSupply, Pool.change, Cursor.close, Pool.record] using hserved
    | next r rest =>
      rw [hdrop] at hprobe
      obtain ⟨hrest, hprobe⟩ := hprobe
      rw [hprobe] at hread
      have hbehind : (Feed.orFailed p.meaning).drop (position + 1) = p.feedFrom (position + 1) := by
        rw [Feed.drop_succ hdrop, hrest]
      rw [Cursor.next_of_row (Cursor.step_reader_of hs hread)]
      refine .row hdrop ?_
      rw [Nat.max_eq_right (Nat.le_succ position)]
      refine ⟨{ splitter with
        supply := .opened (.probe p (position + 1) false)
        cache := splitter.cache.push r }, ?_, hopens, hkeeps.push hdrop ⟨rfl, hbehind⟩, ?_, ?_⟩
      · simp [Pool.record, hs]
      · simpa [Pool.change, Pool.record, Event.isOpening] using hopenings
      · simpa [Pool.change, Pool.record] using hserved

theorem serves (p : Probe) (s : SplitterId) :
    Fan.Serves s p.meaning (p.Waits s) (p.Stands s) where
  waiting := by
    rintro pool ⟨splitter, hs, -, hopens, hcache, -⟩
    exact ⟨splitter, hs, hopens, by rw [hcache]; rfl⟩
  standing := by
    rintro m pool ⟨splitter, hs, hopens, hkeeps, -⟩
    exact ⟨splitter, hs, hopens, hkeeps.size⟩
  within := by
    rintro m pool ⟨splitter, -, -, hkeeps, -⟩
    exact hkeeps.within
  first := first_stands
  later := later_stands
  next := next_stands
  waitsSwept := by
    rintro pool inUse hs ⟨splitter, hsplitter, hwaiting, hopens, hcache, hopenings, hserved⟩
    refine ⟨splitter, ?_, hwaiting, hopens, hcache, ?_, ?_⟩
    · rw [Pool.sweep_of_reaches (.inUse hs), hsplitter]
    · rw [(pool.sweep_releases inUse).countP_opening, hopenings]
    · rw [(pool.sweep_releases inUse).count_served, hserved]
  standsSwept := by
    rintro m pool inUse hs ⟨splitter, hsplitter, hopens, hkeeps, hopenings, hserved⟩
    refine ⟨splitter, ?_, hopens, hkeeps, ?_, ?_⟩
    · rw [Pool.sweep_of_reaches (.inUse hs), hsplitter]
    · rw [(pool.sweep_releases inUse).countP_opening, hopenings]
    · rw [(pool.sweep_releases inUse).count_served, hserved]

end Probe

namespace Pool

/-- The new splitter is in the last place, and nobody has opened it. -/
theorem getElem?_share (pool : Pool) (plan : Plan) :
    (pool.share plan).2.splitters[(pool.share plan).1]? =
      some { supply := .waiting plan, limit := plan.limit pool.limitOf } :=
  Array.getElem?_push_size

/-- Nothing has happened to the pool of splitters that were just allotted. -/
theorem log_ofSplitters (splitters : Splitters) : (ofSplitters splitters).log = [] :=
  Array.foldl_induction (fun _ (pool : Pool) => pool.log = []) rfl fun _ _ h => h

end Pool

namespace Fan

/-- A new splitter over a plan, without consumers. -/
def create (pool : Pool) (plan : Plan) (layout : Layout) (others : List SplitterId) : Fan where
  pool := (pool.share plan).2
  splitter := (pool.share plan).1
  layout := layout
  others := others

end Fan

namespace Probe

theorem waits_create (splitters : Splitters) (p : Probe) (layout : Layout)
    (others : List SplitterId) :
    let start := Fan.create (.ofSplitters splitters) (.probe p) layout others
    p.Waits start.splitter start.pool := by
  have hlog : (Pool.share (.ofSplitters splitters) (.probe p)).2.log = [] :=
    Pool.log_ofSplitters splitters
  refine ⟨_, Pool.getElem?_share _ _, rfl, rfl, rfl, ?_, ?_⟩
  · show List.countP _ (Pool.share (.ofSplitters splitters) (.probe p)).2.log = 0
    rw [hlog]
    rfl
  · show List.count _ (Pool.share (.ofSplitters splitters) (.probe p)).2.log = 0
    rw [hlog]
    rfl

/-- A producer outside the library behind a splitter is opened as often as the splitter opens its
supply, and serves every row that the splitter keeps once, whatever the consumers do. -/
theorem tally_run (splitters : Splitters) (p : Probe) (layout : Layout) (others : List SplitterId)
    (history : List Fan.Act) :
    let fan := (Fan.create (.ofSplitters splitters) (.probe p) layout others).run history
    (fan.pool.tally p.name).opened = fan.opens ∧ (fan.pool.tally p.name).served = fan.buffered := by
  generalize hstart : Fan.create (.ofSplitters splitters) (.probe p) layout others = start
  have hwaits := waits_create splitters p layout others
  have hnone : start.consumers = [] := by rw [← hstart]; rfl
  rw [hstart] at hwaits
  have htracks : Fan.Tracks start.splitter p.meaning (p.Waits start.splitter)
      (p.Stands start.splitter) start history :=
    (p.serves start.splitter).tracks_run rfl hnone hwaits history
  intro fan
  show ((start.run history).pool.tally p.name).opened = (start.run history).opens ∧
    ((start.run history).pool.tally p.name).served = (start.run history).buffered
  rw [Pool.tally_opened, Pool.tally_served, Fan.opens, Fan.buffered, htracks.splitter]
  rcases Nat.eq_zero_or_pos (Fan.opened history) with hidle | hbusy
  · obtain ⟨splitter, hs, -, hopens, hcache, hopenings, hserved⟩ := htracks.idle hidle
    simp [hs, hopens, hcache, hopenings, hserved]
  · obtain ⟨m, ⟨splitter, hs, hopens, hkeeps, hopenings, hserved⟩, -⟩ := htracks.busy hbusy
    simp [hs, hopens, hkeeps.size, hopenings, hserved]

end Probe

end GraphShapes
