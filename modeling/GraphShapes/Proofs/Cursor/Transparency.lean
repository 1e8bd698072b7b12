import GraphShapes.Proofs.Cursor.Allotted
import GraphShapes.Proofs.Cursor.ProbeSupply
import GraphShapes.Proofs.Cursor.Supply

/-!
# Splitters over plans

Whatever plan is the supply of a splitter, its consumers are served as if each of them read the plan
alone (`Fan.fan_out`). Before the first consumer comes, the splitter waits (`Pool.Waits`). From then
on it holds rows, or its supply has failed (`Pool.Stands`).

The supply may read other splitters; they have to be there only as long as the supply can reach them,
so a sweep takes away from what is assumed of the pool just what it releases (`Pool.SoundOn.swept`).
-/

namespace GraphShapes

namespace Pool

section

variable (around : Surroundings) (s : SplitterId)

/-- Nobody has opened the splitter. Its supply reads sound splitters with smaller numbers, and the
budget pays for all of them. -/
structure WaitsAbove (below : SplitterId → Prop) (plan : Plan) (pool : Pool) : Prop where
  entry : ∃ splitter, pool.splitters[s]? = some splitter ∧ splitter.supply = .waiting plan ∧
    splitter.opens = 0 ∧ splitter.cache.size = 0
  smaller : ∀ t, below t → t < s
  reads : ∀ t ∈ plan.readSplitters, below t
  sound : pool.SoundOn around below
  affordable : pool.work around ≤ pool.budget

/-- The splitter waits with a plan for its first consumer. -/
def Waits (plan : Plan) (pool : Pool) : Prop :=
  ∃ below, pool.WaitsAbove around s below plan

/-- The splitter was opened once and keeps so many rows. Either the budget pays for what is left, or
the supply is not read any more. -/
def Stands (feed : RowFeed) (m : Nat) (pool : Pool) : Prop :=
  (∃ below : SplitterId → Prop, (∀ t, below t → t < s) ∧ pool.Holds around below s feed 1 m ∧
    pool.work around ≤ pool.budget) ∨ pool.Settled s feed 1 m

end

variable {around : Surroundings} {s : SplitterId} {below : SplitterId → Prop} {pool pool' : Pool}
  {feed : RowFeed} {opens m : Nat}

/-! ## Other things that happen in the pool -/

/-- Preparing to read a plan leaves readers where they are. -/
theorem StartedAt.prepare {t : SplitterId} {position : Nat} (plan : Plan)
    (h : pool.StartedAt t position) : (pool.prepare plan).StartedAt t position :=
  h.of_splitters rfl

/-- Preparing only adds to the budget. -/
theorem budget_le_prepare (pool : Pool) (plan : Plan) : pool.budget ≤ (pool.prepare plan).budget :=
  Nat.le_trans (Nat.le_add_right _ _) (Nat.le_add_right _ _)

/-- So the pool stays sound. -/
theorem SoundOn.prepare (h : pool.SoundOn around below) (plan : Plan) :
    (pool.prepare plan).SoundOn around below :=
  h.of_same (fun _ _ => rfl) fun _ _ => .prepare plan

/-- A splitter goes on holding its rows while others change, as long as those that its supply reads
stay sound. -/
theorem Holds.grow {splitter : Splitter} {below' : SplitterId → Prop}
    (hs' : pool'.splitters[s]? = some splitter) (hopens : splitter.opens = opens)
    (hkeeps : splitter.Keeps (fun c rest => c.feed around = rest ∧ c.Reads below pool.StartedAt)
      feed m)
    (hgrows : ∀ t position, pool.StartedAt t position → pool'.StartedAt t position)
    (hreads : ∀ t ∈ splitter.supply.readSplitters, below t → below' t)
    (hsound : pool'.SoundOn around below') : pool'.Holds around below' s feed opens m := by
  refine ⟨⟨splitter, hs', hopens, hkeeps.mono fun c hc h => ⟨h.1, ?_⟩⟩, hsound⟩
  rw [hc] at hreads
  exact Cursor.Reads.restrict hgrows c h.2 hreads

/-- What a sweep leaves alone stays sound. -/
theorem StartedAt.swept (inUse : List SplitterId) {t : SplitterId} {position : Nat}
    (h : pool.StartedAt t position) : (pool.sweep inUse).StartedAt t position := by
  obtain ⟨splitter, ht, hstarted, hposition⟩ := h
  rcases (pool.sweep_releases inUse).entry t with hsame | hended
  · exact ⟨splitter, hsame.trans ht, hstarted, hposition⟩
  · rw [ht] at hended
    exact ⟨_, hended, fun plan => Supply.noConfusion, hposition⟩

/-- A sweep keeps the pool sound on the splitters that are in use. -/
theorem SoundOn.swept (h : pool.SoundOn around below) (inUse : List SplitterId) :
    (pool.sweep inUse).SoundOn around fun t =>
      below t ∧ pool.Reaches pool.splitters.size inUse t := by
  rintro t ⟨ht, hreaches⟩
  obtain ⟨splitter, hsplitter, hsound⟩ := h t ht
  refine ⟨splitter, (sweep_of_reaches hreaches).trans hsplitter, hsound.grow ?_ fun _ _ => .swept inUse⟩
  intro u hu hbelow hlt
  exact ⟨hbelow, .read hreaches (Array.getElem?_eq_some_iff.1 hsplitter).1 hsplitter hu hlt⟩

/-- A splitter in use goes on waiting. -/
theorem Waits.swept {plan : Plan} {inUse : List SplitterId} (hs : s ∈ inUse)
    (h : pool.Waits around s plan) : (pool.sweep inUse).Waits around s plan := by
  obtain ⟨below, h⟩ := h
  obtain ⟨splitter, hsplitter, hwaiting, hrest⟩ := h.entry
  have hreleases := pool.sweep_releases inUse
  have hreached : ∀ t ∈ plan.readSplitters, pool.Reaches pool.splitters.size inUse t := by
    intro t ht
    refine .read (.inUse hs) (Array.getElem?_eq_some_iff.1 hsplitter).1 hsplitter ?_
      (h.smaller t (h.reads t ht))
    rw [hwaiting]
    exact ht
  refine ⟨_, ⟨splitter, (sweep_of_reaches (.inUse hs)).trans hsplitter, hwaiting, hrest⟩,
    fun t ht => h.smaller t ht.1, fun t ht => ⟨h.reads t ht, hreached t ht⟩, h.sound.swept inUse, ?_⟩
  rw [hreleases.budget]
  exact Nat.le_trans hreleases.work h.affordable

/-- A splitter in use stands as it stood. -/
theorem Stands.swept {inUse : List SplitterId} (hs : s ∈ inUse) (h : pool.Stands around s feed m) :
    (pool.sweep inUse).Stands around s feed m := by
  have hreleases := pool.sweep_releases inUse
  have hsame : (pool.sweep inUse).splitters[s]? = pool.splitters[s]? := sweep_of_reaches (.inUse hs)
  rcases h with ⟨below, hsmaller, h, haffordable⟩ | ⟨splitter, hsplitter, hsettled⟩
  · obtain ⟨splitter, hsplitter, hopens, hkeeps⟩ := h.entry
    refine .inl ⟨_, fun t ht => hsmaller t ht.1,
      .grow (hsame.trans hsplitter) hopens hkeeps (fun _ _ => .swept inUse) (fun t ht hbelow => ?_)
        (h.sound.swept inUse), ?_⟩
    · exact ⟨hbelow, .read (.inUse hs) (Array.getElem?_eq_some_iff.1 hsplitter).1 hsplitter ht
        (hsmaller t hbelow)⟩
    · rw [hreleases.budget]
      exact Nat.le_trans hreleases.work haffordable
  · exact .inr ⟨splitter, hsame.trans hsplitter, hsettled⟩

/-! ## What consumers meet -/

/-- Either way, the splitter keeps the rows. -/
theorem Stands.keeps (h : pool.Stands around s feed m) : ∃ splitter stands,
    pool.splitters[s]? = some splitter ∧ splitter.opens = 1 ∧ splitter.Keeps stands feed m := by
  rcases h with ⟨below, -, h, -⟩ | ⟨splitter, hsplitter, hopens, hkeeps⟩
  · obtain ⟨splitter, hsplitter, hopens, hkeeps⟩ := h.entry
    exact ⟨splitter, _, hsplitter, hopens, hkeeps⟩
  · exact ⟨splitter, _, hsplitter, hopens, hkeeps⟩

/-- Preparing to read a plan leaves a splitter as it stands. -/
theorem Stands.prepare (h : pool.Stands around s feed m) (plan : Plan) :
    (pool.prepare plan).Stands around s feed m := by
  rcases h with ⟨below, hsmaller, h, haffordable⟩ | hsettled
  · obtain ⟨splitter, hsplitter, hopens, hkeeps⟩ := h.entry
    refine .inl ⟨below, hsmaller, .grow hsplitter hopens hkeeps (fun _ _ => .prepare plan)
      (fun _ _ hbelow => hbelow) (h.sound.prepare plan),
      Nat.le_trans haffordable (pool.budget_le_prepare plan)⟩
  · exact .inr hsettled

/-- The first consumer opens the supply, or makes it fail. -/
theorem first_stands (hbounded : around.Bounded) {plan : Plan}
    (hdelivered : around.delivered s = plan.meaning around.delivered) (layout : Layout)
    (h : pool.Waits around s plan) : ∃ pool',
      pool.openPlan (.reader s layout) =
          ((around.delivered s).map fun _ => .reader s 0 false, pool') ∧
        pool'.Stands around s (Feed.orFailed (around.delivered s)) 0 := by
  obtain ⟨below, h⟩ := h
  obtain ⟨splitter, hs, hwaiting, hopens, hcache⟩ := h.entry
  have hs' : (pool.prepare (.reader s layout)).splitters[s]? = some splitter := hs
  have hlt : s < pool.splitters.size := (Array.getElem?_eq_some_iff.1 hs).1
  have hbelow : ¬ below s := fun hself => Nat.lt_irrefl s (h.smaller s hself)
  -- the supply has access to the splitters below its own number, and to no others
  have hright := access_right hbounded (pool.splitters.size - 1) below fun t ht =>
    Nat.lt_of_lt_of_le (h.smaller t ht) (Nat.le_sub_one_of_lt hlt)
  have hstart := start_right hbelow hs' hwaiting hcache (h.sound.prepare _)
    fun pool hsound => plan.opened_right hbounded hright pool h.reads hsound
  rw [openPlan_reader layout hs]
  generalize start (access (pool.splitters.size - 1)) s (pool.prepare (.reader s layout)) = started
    at hstart ⊢
  obtain ⟨result, pool'⟩ := started
  cases result with
  | ok u =>
    obtain ⟨feed, hmeaning, hadvances⟩ := hstart
    rw [hdelivered, hmeaning]
    rw [hopens] at hadvances
    refine ⟨pool', rfl, .inl ⟨below, h.smaller, hadvances.holds, ?_⟩⟩
    rw [hadvances.budget]
    exact Nat.le_trans hadvances.work
      (Nat.le_trans h.affordable (pool.budget_le_prepare (.reader s layout)))
  | error e =>
    obtain ⟨hmeaning, htouches, hsettled⟩ := hstart
    rw [hdelivered, hmeaning]
    rw [hopens] at hsettled
    exact ⟨pool', rfl, .inr hsettled⟩

/-- A later consumer starts at the first row and opens nothing. -/
theorem later_stands (layout : Layout) (h : pool.Stands around s feed m) : ∃ pool',
    pool.openPlan (.reader s layout) = (.ok (.reader s 0 false), pool') ∧
      pool'.Stands around s feed m := by
  obtain ⟨splitter, stands, hs, -, hkeeps⟩ := h.keeps
  exact ⟨_, hkeeps.openPlan_eq hs layout, h.prepare _⟩

/-- A supply that is busy is asked again, for which the budget lasts. -/
theorem nextWithin_answers {lower : Access} (start : SplitterId → Pool → Except OpError Unit × Pool)
    (hbounded : around.Bounded) (hright : lower.Right around below)
    (hsmaller : ∀ t, below t → t < s) {position : Nat} (hposition : position ≤ m) :
    ∀ (fuel : Nat) {pool : Pool}, pool.Holds around below s feed 1 m →
      pool.work around ≤ pool.budget → pool.work around < fuel →
        Answers s feed (fun m pool => pool.Stands around s feed m) m position
          (Cursor.nextWithin ⟨start, read lower⟩ fuel (.reader s position false) pool)
  | 0, _, _, _, hfuel => absurd hfuel (Nat.not_lt_zero _)
  | fuel + 1, pool, h, haffordable, hfuel => by
    have hbelow : ¬ below s := fun hself => Nat.lt_irrefl s (hsmaller s hself)
    have hread := read_right hbelow h hposition fun c hc =>
      c.step_right hbounded hright pool hc h.sound
    -- the work went down by what was spent, so the budget still covers it
    have hstands : ∀ {m' spent : Nat} {pool' : Pool},
        pool.Advances around below s feed 1 m' spent pool' →
          pool'.Stands around s feed m' ∧ pool'.work around ≤ pool'.budget := by
      intro m' spent pool' hadvances
      have hwork := hadvances.work
      have hbudget := hadvances.budget
      have haffordable' : pool'.work around ≤ pool'.budget := by omega
      exact ⟨.inl ⟨below, hsmaller, hadvances.holds, haffordable'⟩, haffordable'⟩
    rw [Cursor.nextWithin, Cursor.step_reader]
    simp only
    generalize read lower s position pool = result at hread ⊢
    obtain ⟨outcome, pool'⟩ := result
    cases outcome with
    | row r =>
      obtain ⟨hfront, hadvances⟩ := hread
      exact .row hfront (hstands hadvances).1
    | ended =>
      obtain ⟨hfront, hadvances⟩ := hread
      exact .ended hfront (hstands hadvances).1
    | failed e =>
      obtain ⟨hfront, -, hsettled⟩ := hread
      exact .failed hfront (.inr hsettled)
    | busy =>
      -- a busy step has spent one, so the fuel lasts for another
      have hadvances : pool.Advances around below s feed 1 m 1 pool' := hread
      have hwork := hadvances.work
      have hlast : pool'.work around < fuel := by omega
      exact nextWithin_answers start hbounded hright hsmaller hposition fuel hadvances.holds
        (hstands hadvances).2 hlast

/-- A consumer is answered from what is kept or from the supply, and the splitter stands as before.
-/
theorem next_answers (hbounded : around.Bounded) {position : Nat} (hposition : position ≤ m)
    (h : pool.Stands around s feed m) :
    Answers s feed (fun m pool => pool.Stands around s feed m) m position
      ((Cursor.reader s position false).next pool) := by
  have hself := h
  rcases h with ⟨below, hsmaller, h, haffordable⟩ | ⟨splitter, hs, hopens, hkeeps⟩
  · obtain ⟨splitter, hs, -⟩ := h.entry
    have hlt : s < pool.splitters.size := (Array.getElem?_eq_some_iff.1 hs).1
    rw [Cursor.next, access_size hs]
    refine nextWithin_answers _ hbounded ?_ hsmaller hposition _ h haffordable
      (Nat.lt_succ_of_le haffordable)
    exact access_right hbounded _ below fun t ht =>
      Nat.lt_of_lt_of_le (hsmaller t ht) (Nat.le_sub_one_of_lt hlt)
  · have hclosed : ∀ c, splitter.supply ≠ .opened c := by
      intro c hc
      have hsupply := hkeeps.supply
      rw [hc] at hsupply
      exact hsupply
    exact hkeeps.next_held hs hposition (.inr hclosed) hself

/-- The consumers of a splitter over any plan meet what its supply delivers. -/
theorem serves (hbounded : around.Bounded) {plan : Plan}
    (hdelivered : around.delivered s = plan.meaning around.delivered) :
    Fan.Serves s (around.delivered s) (fun pool => pool.Waits around s plan)
      (fun m pool => pool.Stands around s (Feed.orFailed (around.delivered s)) m) where
  waiting h := by
    obtain ⟨below, h⟩ := h
    obtain ⟨splitter, hsplitter, -, hopens, hcache⟩ := h.entry
    exact ⟨splitter, hsplitter, hopens, hcache⟩
  standing h := by
    obtain ⟨splitter, stands, hsplitter, hopens, hkeeps⟩ := h.keeps
    exact ⟨splitter, hsplitter, hopens, hkeeps.size⟩
  within h := by
    obtain ⟨splitter, stands, -, -, hkeeps⟩ := h.keeps
    exact hkeeps.within
  first layout h := first_stands hbounded hdelivered layout h
  later layout h := later_stands layout h
  next h hposition := next_answers hbounded hposition h
  waitsSwept hs h := h.swept hs
  standsSwept hs h := h.swept hs

end Pool

namespace Fan

/-- As long as the supply is read, it stands right behind the rows that are kept: every one of them
has been pulled out of it once, and no other. -/
def PulledOnce (around : Surroundings) (feed : RowFeed) (fan : Fan) : Prop :=
  ∀ splitter c, fan.pool.splitters[fan.splitter]? = some splitter → splitter.supply = .opened c →
    c.feed around = feed.drop fan.buffered

/-- A splitter that stands has pulled each row once at most. -/
theorem pulledOnce_of_stands {around : Surroundings} {feed : RowFeed} {m : Nat} {fan : Fan}
    (h : fan.pool.Stands around fan.splitter feed m) : fan.PulledOnce around feed := by
  intro splitter c hsplitter hsupply
  have hbuffered : ∀ {m : Nat} {stands : Cursor → RowFeed → Prop},
      splitter.Keeps stands feed m → fan.buffered = m := by
    intro m stands hkeeps
    rw [buffered, hsplitter]
    exact hkeeps.size
  rcases h with ⟨below, -, h, -⟩ | ⟨splitter', hsplitter', -, hkeeps⟩
  · obtain ⟨splitter', hsplitter', -, hkeeps⟩ := h.entry
    obtain rfl : splitter = splitter' := by rwa [hsplitter, Option.some_inj] at hsplitter'
    have hstands := hkeeps.supply
    rw [hsupply] at hstands
    rw [hbuffered hkeeps]
    exact hstands.1
  · obtain rfl : splitter = splitter' := by rwa [hsplitter, Option.some_inj] at hsplitter'
    have hstands := hkeeps.supply
    rw [hsupply] at hstands
    exact hstands.elim

/-- A new splitter over a plan waits. -/
theorem waits_create {splitters : Splitters} {supply : Plan}
    (hlayered : Splitters.Layered (splitters.push supply)) (layout : Layout)
    (others : List SplitterId) :
    let start := create (.ofSplitters splitters) supply layout others
    start.pool.Waits (Splitters.around (splitters.push supply)) start.splitter supply := by
  intro start
  have hallotted := hlayered.allotted
  have hpool : start.pool = .ofSplitters (splitters.push supply) :=
    (Splitters.ofSplitters_push splitters supply).symm
  have hsplitter : start.splitter = splitters.size := hlayered.of_push.1.allotted.size
  obtain ⟨hentry, -⟩ := hallotted.entry splitters.size supply Array.getElem?_push_size
  rw [hpool, hsplitter]
  refine ⟨fun t => t < splitters.size, ⟨_, hentry, rfl, rfl, rfl⟩, fun t ht => ht,
    hlayered.of_push.2, fun t ht => ?_, hallotted.affordable⟩
  have hlt : t < (splitters.push supply).size := by
    rw [Array.size_push]
    exact Nat.lt_succ_of_lt ht
  obtain ⟨hwaiting, hdelivered⟩ := hallotted.entry t _ (Array.getElem?_eq_getElem hlt)
  refine ⟨_, hwaiting, rfl, hdelivered, fun u hu => ?_⟩
  have hut : u < t := hlayered t _ (Array.getElem?_eq_getElem hlt) u hu
  exact ⟨Nat.lt_trans hut ht, hut⟩

/-- The consumers of a splitter are served as if each of them read its supply alone, in whatever order
they are opened, asked, closed and dropped. Yet the supply is opened once, and no row is pulled out of
it twice; a producer outside the library can tell. -/
theorem fan_out {splitters : Splitters} {supply : Plan}
    (hlayered : Splitters.Layered (splitters.push supply)) (layout : Layout)
    (others : List SplitterId) (history : List Act) :
    let start := create (.ofSplitters splitters) supply layout others
    Transparent (supply.feedIn splitters) start history ∧
      (start.run history).PulledOnce (Splitters.around (splitters.push supply))
        (Feed.orFailed (supply.feedIn splitters)) ∧
      ∀ p, supply = .probe p →
        ((start.run history).pool.tally p.name).opened = (start.run history).opens ∧
          ((start.run history).pool.tally p.name).served = (start.run history).buffered := by
  intro start
  have hallotted := hlayered.allotted
  have hsplitter : start.splitter = splitters.size := hlayered.of_push.1.allotted.size
  have hdelivered : (Splitters.around (splitters.push supply)).delivered start.splitter =
      supply.feedIn splitters := by
    rw [hsplitter]
    exact Splitters.delivered_push splitters supply
  have hmeaning : (Splitters.around (splitters.push supply)).delivered start.splitter =
      supply.meaning (Splitters.around (splitters.push supply)).delivered := by
    rw [hsplitter]
    exact (hallotted.entry splitters.size supply Array.getElem?_push_size).2
  have hserves := Pool.serves hallotted.bounded hmeaning
  have htracks := hserves.tracks_run rfl rfl (waits_create hlayered layout others) history
  rw [← hdelivered]
  refine ⟨hserves.transparent htracks, ?_, ?_⟩
  · rcases Nat.eq_zero_or_pos (opened history) with hidle | hbusy
    · intro splitter c hs hsupply
      obtain ⟨below, h⟩ := htracks.idle hidle
      obtain ⟨splitter', hs', hwaiting, -⟩ := h.entry
      rw [htracks.splitter, hs', Option.some_inj] at hs
      rw [← hs, hwaiting] at hsupply
      cases hsupply
    · obtain ⟨m, hstands, -⟩ := htracks.busy hbusy
      rw [← htracks.splitter] at hstands
      have h := pulledOnce_of_stands hstands
      rwa [htracks.splitter] at h
  · rintro p rfl
    exact p.tally_run splitters layout others history

/-- A second consumer of a supply that reads another splitter, opened when the first one has read a
row and has been closed. -/
theorem fan_out_late :
    let rows : List Row := [{ target := .str "a" }, { target := .str "b" }]
    let splitters : Splitters := #[.values rows .aggregated]
    let supply : Plan := .filter (.reader 0 .aggregated) "not a" fun r => r.target ≠ .str "a"
    let start := create (.ofSplitters splitters) supply .aggregated []
    Splitters.Layered (splitters.push supply) ∧
      ((start.run [.consume, .close 0, .next 0, .consume]).act (.next 1)).1 =
        .ok (some { target := .str "b" }) := by
  intro rows splitters supply start
  have hlayered : Splitters.Layered (splitters.push supply) := by
    intro s supply' hs t ht
    match s, hs with
    | 0, hs =>
      obtain rfl := Option.some.inj hs
      cases ht
    | 1, hs =>
      obtain rfl := Option.some.inj hs
      obtain rfl := List.mem_singleton.1 ht
      exact Nat.zero_lt_one
    | s + 2, hs => cases hs
  exact ⟨hlayered,
    (fan_out hlayered .aggregated [] [.consume, .close 0, .next 0, .consume]).1.next 1 rfl⟩

end Fan

end GraphShapes
