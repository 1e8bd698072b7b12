import GraphShapes.Proofs.Cursor.Stepping

/-!
# Splitters at work

What a reader does to a splitter: it starts the supply, or reads a row, which may pull one out of the
supply. The splitter holds the first rows of a feed all the time (`Pool.Holds`), and a read takes it
from one number of rows to the next at most (`Pool.read_right`), however the supply uses the splitters
below it.

So the splitters give the right access to each other, level by level: `Pool.access_right` is by
induction on the number of splitters.
-/

namespace GraphShapes

section Holding

variable (around : Surroundings) (below : SplitterId → Prop) (s : SplitterId)

/-- The splitter was opened so often and keeps so many rows of a feed. Its supply delivers the
others, and reads only splitters that satisfy a predicate and are sound. -/
structure Pool.Holds (feed : RowFeed) (opens m : Nat) (pool : Pool) : Prop where
  entry : ∃ splitter, pool.splitters[s]? = some splitter ∧ splitter.opens = opens ∧
    splitter.Keeps (fun c rest => c.feed around = rest ∧ c.Reads below pool.StartedAt) feed m
  sound : pool.SoundOn around below

/-- The splitter keeps so many rows of a feed, and nothing is read from its supply any more. -/
def Pool.Settled (feed : RowFeed) (opens m : Nat) (pool : Pool) : Prop :=
  ∃ splitter, pool.splitters[s]? = some splitter ∧ splitter.opens = opens ∧
    splitter.Keeps (fun _ _ => False) feed m

/-- Work for one splitter, after which it holds so many rows. -/
structure Pool.Advances (feed : RowFeed) (opens m spent : Nat) (pool pool' : Pool) : Prop
    extends Pool.Touches (fun t => below t ∨ t = s) pool pool' where
  holds : pool'.Holds around below s feed opens m
  grows : ∀ t position, pool.StartedAt t position → pool'.StartedAt t position
  work : pool'.work around + spent ≤ pool.work around

/-- What makes reading a splitter at a position right. -/
def Pool.ReadRight (feed : RowFeed) (opens m position : Nat) (pool : Pool) :
    Outcome × Pool → Prop
  | (.row r, pool') => feed.drop position = .next r (feed.drop (position + 1)) ∧
    pool.Advances around below s feed opens (max m (position + 1)) 0 pool'
  | (.ended, pool') => feed.drop position = .done ∧
    pool.Advances around below s feed opens m 0 pool'
  | (.busy, pool') => pool.Advances around below s feed opens m 1 pool'
  | (.failed e, pool') => feed.drop position = .failed e ∧
    pool.Touches (fun t => below t ∨ t = s) pool' ∧ pool'.Settled s feed opens m

/-- What makes opening the supply of a splitter right. -/
def Pool.StartRight (plan : Plan) (opens : Nat) (pool : Pool) : Except OpError Unit × Pool → Prop
  | (.ok _, pool') => ∃ feed, plan.meaning around.delivered = .ok feed ∧
    pool.Advances around below s feed opens 0 0 pool'
  | (.error e, pool') => plan.meaning around.delivered = .error e ∧
    pool.Touches (fun t => below t ∨ t = s) pool' ∧ pool'.Settled s (.failed e) opens 0

end Holding

variable {around : Surroundings} {below : SplitterId → Prop} {s : SplitterId}
  {pool pool' : Pool} {splitter : Splitter} {lower : Access}

theorem Splitter.Keeps.mono {stands stands' : Cursor → RowFeed → Prop} {feed : RowFeed} {m : Nat}
    (h : splitter.Keeps stands feed m)
    (hstands : ∀ c, splitter.supply = .opened c → stands c (feed.drop m) → stands' c (feed.drop m)) :
    splitter.Keeps stands' feed m where
  size := h.size
  kept := h.kept
  supply := by
    have hsupply := h.supply
    cases hstate : splitter.supply with
    | waiting plan => simp [hstate] at hsupply
    | opened c =>
      simp only [hstate] at hsupply ⊢
      exact hstands c hstate hsupply
    | ended => simpa [hstate] using hsupply
    | failed e => simpa [hstate] using hsupply

/-- Where no row is kept yet, the supply stands at the beginning. -/
theorem Splitter.Keeps.beginning {stands : Cursor → RowFeed → Prop} {feed : RowFeed}
    (hcache : splitter.cache.size = 0) {supply : Supply}
    (hsupply : match supply with
      | .waiting _ => False
      | .opened c => stands c feed
      | .ended => feed = .done
      | .failed e => feed = .failed e) :
    (splitter.withSupply supply).Keeps stands feed 0 where
  size := hcache
  kept k r hk := by
    have hk : splitter.cache[k]? = some r := hk
    rw [Array.getElem?_eq_none (by omega)] at hk
    cases hk
  supply := by
    simp only [Splitter.supply_withSupply, Feed.drop_zero]
    exact hsupply

namespace Pool

/-- A splitter has changed, and is not one that waits. -/
theorem StartedAt.change (hs : pool.splitters[s]? = some splitter) {f : Splitter → Splitter}
    (hf : ∀ plan, (f splitter).supply ≠ .waiting plan)
    (hcache : splitter.cache.size ≤ (f splitter).cache.size) {t : SplitterId} {position : Nat}
    (h : pool.StartedAt t position) : (pool.change s f).StartedAt t position := by
  by_cases hst : s = t
  · subst hst
    obtain ⟨splitter', hs', -, hposition⟩ := h
    obtain rfl : splitter = splitter' := by rwa [hs, Option.some_inj] at hs'
    exact ⟨f splitter, by rw [getElem?_change, if_pos rfl, hs]; rfl, hf,
      Nat.le_trans hposition hcache⟩
  · exact h.of_splitters (by rw [getElem?_change, if_neg hst])

/-- A splitter has changed that the others do not need. -/
theorem SoundOn.change (h : pool.SoundOn around below) (hbelow : ¬ below s)
    {f : Splitter → Splitter}
    (hgrows : ∀ t position, pool.StartedAt t position → (pool.change s f).StartedAt t position) :
    (pool.change s f).SoundOn around below := by
  refine h.of_same (fun t ht => ?_) hgrows
  have hst : s ≠ t := fun hst => hbelow (hst ▸ ht)
  rw [getElem?_change, if_neg hst]

/-- The splitters below have been used, and then the splitter has changed, as it may have before. -/
theorem Moves.advances {before : Pool} (hbefore : before.Touches (fun t => below t ∨ t = s) pool)
    (hgrown : ∀ t position, before.StartedAt t position → pool.StartedAt t position)
    (h : Moves around below pool pool') (hbelow : ¬ below s)
    (hs : pool.splitters[s]? = some splitter) (f : Splitter → Splitter) {feed : RowFeed}
    {m spent : Nat} (hcache : splitter.cache.size ≤ (f splitter).cache.size)
    (hkeeps : ∀ started : SplitterId → Nat → Prop,
      (∀ t position, pool'.StartedAt t position → started t position) →
      (f splitter).Keeps (fun c rest => c.feed around = rest ∧ c.Reads below started) feed m)
    (hwork : pool'.work around + (f splitter).supply.work around + spent ≤
      before.work around + splitter.supply.work around) :
    before.Advances around below s feed (f splitter).opens m spent (pool'.change s f) := by
  have hs' : pool'.splitters[s]? = some splitter := (h.others s hbelow).trans hs
  -- what keeps rows has been started
  have hf : ∀ plan, (f splitter).supply ≠ .waiting plan := by
    intro plan hplan
    have hsupply := (hkeeps _ fun _ _ hstarted => hstarted).supply
    rw [hplan] at hsupply
    exact hsupply
  have hgrows : ∀ t position, pool'.StartedAt t position →
      (pool'.change s f).StartedAt t position := fun t position => .change hs' hf hcache
  constructor
  case toTouches =>
    exact (hbefore.trans (h.toTouches.mono fun t ht => .inl ht)).trans
      (.change _ pool' (.inr rfl) f)
  case holds =>
    refine ⟨⟨f splitter, ?_, rfl, hkeeps _ hgrows⟩, h.sound.change hbelow hgrows⟩
    rw [getElem?_change, if_pos rfl, hs']
    rfl
  case grows =>
    exact fun t position hstarted => hgrows t position (h.grows t position (hgrown t position hstarted))
  case work =>
    -- the work of the splitter is exchanged, that of the others has only gone down
    have hchange : (pool'.change s f).work around + splitter.supply.work around =
        pool'.work around + (f splitter).supply.work around := work_change hs' f
    omega

/-- A row is pulled out of the supply, if it has one. -/
theorem pull_right {feed : RowFeed} {m : Nat} {c : Cursor} (hbelow : ¬ below s)
    (hs : pool.splitters[s]? = some splitter) (hsupply : splitter.supply = .opened c)
    (hkeeps : splitter.Keeps (fun c rest => c.feed around = rest ∧ c.Reads below pool.StartedAt)
      feed m)
    (hstep : Cursor.Step.Right around below c pool (c.step lower pool)) :
    pool.ReadRight around below s feed splitter.opens m m (pool.pull lower s c) := by
  -- the supply stands where the rows that are kept end
  have hfeed : c.feed around = feed.drop m := by
    have h := hkeeps.supply
    rw [hsupply] at h
    exact h.1
  unfold pull
  generalize c.step lower pool = step at hstep ⊢
  obtain ⟨outcome, c', pool'⟩ := step
  cases outcome with
  | row r =>
    obtain ⟨hrow, h⟩ := hstep
    rw [hfeed] at hrow
    have hrest := Feed.drop_succ hrow
    refine ⟨by rw [hrest]; exact hrow, ?_⟩
    rw [Nat.max_eq_right (Nat.le_succ m)]
    refine h.toMoves.advances (.refl _ pool) (fun _ _ h => h) hbelow hs (fun splitter =>
      { splitter with supply := .opened c', cache := splitter.cache.push r }) (by simp)
      (fun started hstarted => ?_) ?_
    · exact hkeeps.push hrow ⟨hrest.symm, h.reads.grow hstarted⟩
    · have hwork := h.work
      rw [hsupply]
      simp only [Supply.work]
      omega
  | busy =>
    obtain ⟨hsame, h⟩ := hstep
    refine h.toMoves.advances (.refl _ pool) (fun _ _ h => h) hbelow hs
      (fun splitter => splitter.withSupply (.opened c'))
      (Nat.le_refl _) (fun started hstarted => ?_) ?_
    · exact ⟨hkeeps.size, hkeeps.kept, hsame.symm.trans hfeed, h.reads.grow hstarted⟩
    · have hwork := h.work
      rw [hsupply]
      simp only [Splitter.supply_withSupply, Supply.work]
      omega
  | ended =>
    obtain ⟨hdone, -, h⟩ := hstep
    rw [hfeed] at hdone
    -- at its end the supply is closed, which costs nothing
    have hclose := c'.close_closes pool'
    refine ⟨hdone, ?_⟩
    refine (h.toMoves.trans (hclose.moves h.sound)).advances (.refl _ pool) (fun _ _ h => h) hbelow hs
      (fun splitter => splitter.withSupply .ended) (Nat.le_refl _)
      (fun started hstarted => ⟨hkeeps.size, hkeeps.kept, hdone⟩) ?_
    have hwork := h.work
    have hclosed : (c'.close pool').2.work around = pool'.work around := hclose.work
    rw [hsupply]
    simp only [Splitter.supply_withSupply, Supply.work]
    omega
  | failed e =>
    obtain ⟨hfailed, htouches⟩ := hstep
    rw [hfeed] at hfailed
    have htouches := htouches.trans ((c'.close_closes pool').touches below)
    refine ⟨hfailed, ?_, splitter.withSupply (.failed e), ?_, rfl, hkeeps.size, hkeeps.kept, hfailed⟩
    · exact (htouches.mono fun t ht => .inl ht).trans (.change _ _ (.inr rfl) _)
    · rw [getElem?_setSupply, if_pos rfl, htouches.others s hbelow, hs]
      rfl

/-- A splitter is read at a position: the row is kept, or the supply is asked. -/
theorem read_right {feed : RowFeed} {opens m position : Nat} (hbelow : ¬ below s)
    (h : pool.Holds around below s feed opens m) (hposition : position ≤ m)
    (hstep : ∀ c : Cursor, c.Reads below pool.StartedAt →
      Cursor.Step.Right around below c pool (c.step lower pool)) :
    pool.ReadRight around below s feed opens m position (pool.read lower s position) := by
  have hself : pool.Advances around below s feed opens m 0 pool :=
    ⟨.refl _ pool, h, fun _ _ hstarted => hstarted, Nat.le_refl _⟩
  obtain ⟨splitter, hs, rfl, hkeeps⟩ := h.entry
  by_cases hlt : position < m
  · obtain ⟨r, hread, hfront⟩ := hkeeps.read_lt lower hs hlt
    rw [hread]
    refine ⟨hfront, ?_⟩
    rw [Nat.max_eq_left hlt]
    exact hself
  · obtain rfl : position = m := by omega
    -- behind all rows that are kept, the supply decides
    rw [read_behind _ hs hkeeps.getElem?_size]
    have hsupply := hkeeps.supply
    cases hstate : splitter.supply with
    | waiting plan => simp [hstate] at hsupply
    | ended =>
      simp only [hstate] at hsupply
      exact ⟨hsupply, hself⟩
    | failed e =>
      simp only [hstate] at hsupply
      refine ⟨hsupply, .refl _ pool, splitter, hs, rfl, hkeeps.mono fun c hc _ => ?_⟩
      rw [hstate] at hc
      cases hc
    | opened c =>
      simp only [hstate] at hsupply
      exact pull_right hbelow hs hstate hkeeps (hstep c hsupply.2)

/-- The first reader opens the supply. -/
theorem start_right {plan : Plan} (hbelow : ¬ below s)
    (hs : pool.splitters[s]? = some splitter) (hwaiting : splitter.supply = .waiting plan)
    (hcache : splitter.cache.size = 0) (hsound : pool.SoundOn around below)
    (hopen : ∀ pool, pool.SoundOn around below →
      Cursor.Opened.Right around below plan pool (plan.opened lower pool)) :
    pool.StartRight around below s plan (splitter.opens + 1) (start lower s pool) := by
  rw [start_waiting _ hs hwaiting]
  generalize hbegun : (fun splitter : Splitter =>
    ({ splitter with supply := .ended, opens := splitter.opens + 1 } : Splitter)) = begun
  have hsupply : (begun splitter).supply = .ended := by rw [← hbegun]
  have hopens : (begun splitter).opens = splitter.opens + 1 := by rw [← hbegun]
  have hcache' : (begun splitter).cache = splitter.cache := by rw [← hbegun]
  -- nobody stands at the splitter yet
  have hgrows : ∀ t position, pool.StartedAt t position →
      (pool.change s begun).StartedAt t position := by
    intro t position hstarted
    refine hstarted.change hs (fun plan => ?_) (Nat.le_of_eq (by rw [hcache']))
    rw [hsupply]
    exact Supply.noConfusion
  have hs' : (pool.change s begun).splitters[s]? = some (begun splitter) := by
    rw [getElem?_change, if_pos rfl, hs]
    rfl
  have hwork : (pool.change s begun).work around + splitter.supply.work around =
      pool.work around + (begun splitter).supply.work around := work_change hs begun
  rw [hsupply, hwaiting] at hwork
  have h := hopen _ (hsound.change hbelow hgrows)
  have htouches : pool.Touches (fun t => below t ∨ t = s) (pool.change s begun) :=
    .change _ pool (.inr rfl) begun
  generalize pool.change s begun = pool₁ at *
  generalize plan.opened lower pool₁ = opened at h ⊢
  obtain ⟨result, pool₂⟩ := opened
  cases result with
  | ok c =>
    obtain ⟨hmeaning, hmoves, hreads, hload⟩ := h
    refine ⟨_, hmeaning, ?_⟩
    have hopened : ((begun splitter).withSupply (.opened c)).opens = splitter.opens + 1 := hopens
    rw [← hopened]
    refine hmoves.advances htouches hgrows hbelow hs' (fun splitter => splitter.withSupply (.opened c))
      (Nat.le_refl _) (fun started hstarted => ?_) ?_
    · exact .beginning (by rw [hcache', hcache]) ⟨rfl, hreads.grow hstarted⟩
    · simp only [Splitter.supply_withSupply, Supply.work, hsupply] at hwork ⊢
      omega
  | error e =>
    obtain ⟨hmeaning, htouches'⟩ := h
    refine ⟨hmeaning, ?_, (begun splitter).withSupply (.failed e), ?_, hopens,
      .beginning (by rw [hcache', hcache]) rfl⟩
    · exact (htouches.trans (htouches'.mono fun t ht => .inl ht)).trans (.change _ _ (.inr rfl) _)
    · rw [getElem?_setSupply, if_pos rfl, htouches'.others s hbelow, hs']
      rfl

end Pool

/-! ## The access of every level -/

/-- A sound splitter that has been started keeps rows of what it delivers. -/
theorem Splitter.Sound.keeps {R : SplitterId → Prop} (h : splitter.Sound around R pool s)
    (hstarted : ∀ plan, splitter.supply ≠ .waiting plan) : ∃ feed, around.delivered s = .ok feed ∧
      splitter.Keeps (fun c rest => c.feed around = rest ∧
        c.Reads (fun t => R t ∧ t < s) pool.StartedAt) feed splitter.cache.size := by
  unfold Splitter.Sound at h
  cases hstate : splitter.supply with
  | waiting plan => exact absurd hstate (hstarted plan)
  | opened c => simpa only [hstate] using h
  | ended => simpa only [hstate] using h
  | failed e => simpa only [hstate] using h

theorem Splitter.Sound.of_keeps {R : SplitterId → Prop} {feed : RowFeed} {m : Nat}
    (hdelivered : around.delivered s = .ok feed)
    (h : splitter.Keeps (fun c rest => c.feed around = rest ∧
      c.Reads (fun t => R t ∧ t < s) pool.StartedAt) feed m) : splitter.Sound around R pool s := by
  have hsupply := h.supply
  rw [← h.size] at h
  unfold Splitter.Sound
  cases hstate : splitter.supply with
  | waiting plan => simp [hstate] at hsupply
  | opened c => exact ⟨feed, hdelivered, h⟩
  | ended => exact ⟨feed, hdelivered, h⟩
  | failed e => exact ⟨feed, hdelivered, h⟩

namespace Pool

variable {R : SplitterId → Prop}

/-- What is below a splitter of some, or is that splitter, is one of them. -/
theorem of_below_or_self (hs : R s) : ∀ t, (R t ∧ t < s) ∨ t = s → R t := by
  rintro t (ht | rfl)
  · exact ht.1
  · exact hs

/-- For the readers of a splitter, work for it is a sound move. -/
theorem Advances.moves {feed : RowFeed} {opens m spent : Nat}
    (h : pool.Advances around (fun t => R t ∧ t < s) s feed opens m spent pool') (hs : R s)
    (hsound : pool.SoundOn around R) (hdelivered : around.delivered s = .ok feed) :
    pool.Moves around R pool' ∧ ∀ position, position ≤ m → pool'.StartedAt s position := by
  obtain ⟨splitter, hsplitter, -, hkeeps⟩ := h.holds.entry
  refine ⟨⟨h.toTouches.mono (of_below_or_self hs), ?_, h.grows⟩, fun position hposition => ?_⟩
  · refine hsound.update h.holds.sound ⟨splitter, hsplitter, .of_keeps hdelivered hkeeps⟩
      (fun t ht => h.others t ?_) h.grows
    rintro (hlt | rfl)
    · exact Nat.lt_asymm hlt.2 ht
    · exact Nat.lt_irrefl _ ht
  · exact ⟨splitter, hsplitter, hkeeps.started, by rw [hkeeps.size]; exact hposition⟩

/-- A reader of a splitter that has been started is opened rightly. -/
theorem reader_opened_right {feed : RowFeed} (layout : Layout) (hs : R s)
    (hdelivered : around.delivered s = .ok feed) (hmoves : pool.Moves around R pool')
    (hstarted : pool'.StartedAt s 0) (hwork : pool'.work around ≤ pool.work around) :
    Cursor.Opened.Right around R (.reader s layout) pool (.ok (.reader s 0 false), pool') := by
  refine ⟨?_, hmoves, ⟨hs, hstarted⟩, ?_⟩
  · rw [Plan.meaning, Cursor.feed, hdelivered]
    simp [Feed.orFailed]
  · simp only [Cursor.work]
    omega

section Reader

variable {depth : Nat} (hbounded : around.Bounded)
  (hbelow : (access depth).Right around fun t => R t ∧ t < s) (hs : R s)
  (hsound : pool.SoundOn around R)
include hbounded hbelow hs hsound

/-- With the right access below a splitter, its readers are opened rightly: the first of them starts
the supply. -/
theorem opened_reader_right (layout : Layout) :
    Cursor.Opened.Right around R (.reader s layout) pool
      ((Plan.reader s layout).opened (access (depth + 1)) pool) := by
  obtain ⟨splitter, hsplitter, h⟩ := hsound s hs
  have hself : ¬ (R s ∧ s < s) := fun h => Nat.lt_irrefl s h.2
  rw [Plan.opened_reader]
  show Cursor.Opened.Right around R _ pool ((start (access depth) s pool).1.map _,
    (start (access depth) s pool).2)
  by_cases hwaiting : ∃ plan, splitter.supply = .waiting plan
  · obtain ⟨plan, hwaiting⟩ := hwaiting
    have hplan : splitter.cache.size = 0 ∧
        around.delivered s = plan.meaning around.delivered ∧
          ∀ t ∈ plan.readSplitters, R t ∧ t < s := by
      unfold Splitter.Sound at h
      simpa only [hwaiting] using h
    obtain ⟨hcache, hdelivered, hreads⟩ := hplan
    have hstart := start_right hself hsplitter hwaiting hcache (hsound.below s)
      fun pool hsound => plan.opened_right hbounded hbelow pool hreads hsound
    generalize start (access depth) s pool = started at hstart ⊢
    obtain ⟨result, pool'⟩ := started
    cases result with
    | ok u =>
      obtain ⟨feed, hmeaning, hadvances⟩ := hstart
      rw [hmeaning] at hdelivered
      obtain ⟨hmoves, hstarted⟩ := hadvances.moves hs hsound hdelivered
      exact reader_opened_right layout hs hdelivered hmoves (hstarted 0 (Nat.le_refl 0))
        hadvances.work
    | error e =>
      obtain ⟨hmeaning, htouches, -⟩ := hstart
      exact ⟨by rw [Plan.meaning, hdelivered, hmeaning], htouches.mono (of_below_or_self hs)⟩
  · have hstarted : ∀ plan, splitter.supply ≠ .waiting plan := fun plan hplan =>
      hwaiting ⟨plan, hplan⟩
    obtain ⟨feed, hdelivered, hkeeps⟩ := h.keeps hstarted
    rw [start_started _ hsplitter hstarted]
    exact reader_opened_right layout hs hdelivered (.refl hsound)
      ⟨splitter, hsplitter, hstarted, Nat.zero_le _⟩ (Nat.le_refl _)

/-- With the right access below a splitter, its readers step rightly: they bring what the splitter
delivers at their position. -/
theorem step_reader_right {position : Nat} (hstarted : pool.StartedAt s position) :
    Cursor.Step.Right around R (.reader s position false) pool
      ((Cursor.reader s position false).step (access (depth + 1)) pool) := by
  obtain ⟨splitter, hsplitter, h⟩ := hsound s hs
  obtain ⟨splitter', hsplitter', hnot, hposition⟩ := hstarted
  obtain rfl : splitter = splitter' := by rwa [hsplitter, Option.some_inj] at hsplitter'
  obtain ⟨feed, hdelivered, hkeeps⟩ := h.keeps hnot
  have hread := read_right (fun h => Nat.lt_irrefl s h.2)
    ⟨⟨splitter, hsplitter, rfl, hkeeps⟩, hsound.below s⟩ hposition fun c hc =>
      c.step_right hbounded hbelow pool hc (hsound.below s)
  -- what is in front of a reader is what the splitter delivers at its position
  have hfeed : ∀ position, (Cursor.reader s position false).feed around = feed.drop position := by
    intro position
    rw [Cursor.feed, hdelivered]
    rfl
  have hwork : ∀ {pool' : Pool} {spent position' : Nat},
      pool'.work around + spent ≤ pool.work around →
        (Cursor.reader s position' false).work around + pool'.work around + spent ≤
          (Cursor.reader s position false).work around + pool.work around := by
    intro pool' spent position' hwork
    simp only [Cursor.work]
    omega
  rw [Cursor.step_reader]
  show Cursor.Step.Right around R _ pool ((read (access depth) s position pool).1,
    (read (access depth) s position pool).1.readerAfter s position,
    (read (access depth) s position pool).2)
  generalize read (access depth) s position pool = result at hread ⊢
  obtain ⟨outcome, pool'⟩ := result
  cases outcome with
  | row r =>
    obtain ⟨hfront, hadvances⟩ := hread
    obtain ⟨hmoves, hat⟩ := hadvances.moves hs hsound hdelivered
    refine ⟨?_, hmoves, ⟨hs, hat _ (Nat.le_max_right _ _)⟩, hwork hadvances.work⟩
    rw [hfeed, hfront]
    exact congrArg _ (hfeed _).symm
  | ended =>
    obtain ⟨hfront, hadvances⟩ := hread
    obtain ⟨hmoves, hat⟩ := hadvances.moves hs hsound hdelivered
    exact ⟨(hfeed _).trans hfront, (hfeed _).trans hfront, hmoves, ⟨hs, hat _ hposition⟩,
      hwork hadvances.work⟩
  | busy =>
    obtain ⟨hmoves, hat⟩ := hread.moves hs hsound hdelivered
    exact ⟨rfl, hmoves, ⟨hs, hat _ hposition⟩, hwork hread.work⟩
  | failed e =>
    obtain ⟨hfront, htouches, -⟩ := hread
    exact ⟨(hfeed _).trans hfront, htouches.mono (of_below_or_self hs)⟩

end Reader

/-- The access to the splitters below a number is right for them. -/
theorem access_right (hbounded : around.Bounded) : ∀ (depth : Nat) (R : SplitterId → Prop),
    (∀ t, R t → t < depth) → (access depth).Right around R
  | 0, R, hR => ⟨fun s _ _ hs => absurd (hR s hs) (Nat.not_lt_zero s),
      fun s _ _ hs => absurd (hR s hs) (Nat.not_lt_zero s)⟩
  | depth + 1, R, hR => by
    -- the supply of a splitter has the access of the level below
    have ih : ∀ s, R s → (access depth).Right around fun t => R t ∧ t < s := fun s hs =>
      access_right hbounded depth _ fun t ht => Nat.lt_of_lt_of_le ht.2 (Nat.le_of_lt_succ (hR s hs))
    exact ⟨fun s layout _ hs hsound => opened_reader_right hbounded (ih s hs) hs hsound layout,
      fun s _ _ hs hstarted hsound => step_reader_right hbounded (ih s hs) hs hsound hstarted⟩

end Pool

end GraphShapes
