import GraphShapes.Cursor.Run
import GraphShapes.Proofs.RowFeed.Position
import Mathlib.Order.Bounds.Basic

/-!
# The consumers of a splitter

A `Fan` is a splitter with its consumers, which are opened, asked, closed and dropped in any order
(`Fan.run`). `Fan.Transparent` says that every consumer is served as if it read the rows of the
supply alone, and that nevertheless the supply is opened once and no row is pulled twice.

This module is about the schedule only. What it needs to know of a pool is put together in
`Fan.Serves`: what the first consumer, a later one and a request for a row meet when so many rows
have been kept. `Fan.Tracks` ties the state of every consumer to what was asked of it; one act of
the schedule preserves it, and so does any schedule (`Fan.Serves.tracks_run`).
-/

namespace GraphShapes

/-- What can be done with the consumers of a splitter. They are numbered in the order in which they
are opened. -/
inductive Fan.Act where
  | consume
  | next (i : Nat)
  | close (i : Nat)
  | drop (i : Nat)
deriving DecidableEq

/-- A splitter and its consumers. -/
structure Fan where
  pool : Pool
  splitter : SplitterId
  layout : Layout
  /-- The consumers by number; none in the place of one that was refused or dropped. -/
  consumers : List (Option Cursor) := []
  /-- The other splitters in use. -/
  others : List SplitterId := []

namespace Fan

/-- What an act brings: nothing, a row or a failure. -/
abbrev Answer := Except OpError (Option Row)

def Answer.isRow : Answer → Bool
  | .ok (some _) => true
  | _ => false

/-- Uses a consumer, if there is one of that number. -/
def use (fan : Fan) (i : Nat) (f : Cursor → Pool → Answer × Cursor × Pool) : Answer × Fan :=
  match fan.consumers[i]? with
  | some (some c) =>
    let (answer, c, pool) := f c fan.pool
    (answer, { fan with pool := pool, consumers := fan.consumers.set i (some c) })
  | _ => (.ok none, fan)

/-- Opens one more consumer. -/
def consume (fan : Fan) : Answer × Fan :=
  match fan.pool.openPlan (.reader fan.splitter fan.layout) with
  | (.ok c, pool) => (.ok none, { fan with pool := pool, consumers := fan.consumers ++ [some c] })
  | (.error e, pool) => (.error e, { fan with pool := pool, consumers := fan.consumers ++ [none] })

def act (fan : Fan) : Act → Answer × Fan
  | .consume => fan.consume
  | .next i => fan.use i Cursor.next
  | .close i => fan.use i fun c pool =>
    let (c, pool) := c.close pool
    (.ok none, c, pool)
  | .drop i => (.ok none, { fan with consumers := fan.consumers.set i none })

/-- The fan after the splitters that nothing can reach have been released. The splitter itself
stays in use. -/
def swept (fan : Fan) : Fan :=
  { fan with pool := fan.pool.sweep (fan.splitter :: fan.others) }

/-- The fan after a schedule, the last act of which comes first. -/
def run (fan : Fan) : List Act → Fan
  | [] => fan
  | a :: earlier => ((fan.run earlier).act a).2.swept

/-- How often the supply was opened. -/
def opens (fan : Fan) : Nat := (fan.pool.splitters[fan.splitter]?.map Splitter.opens).getD 0

/-- How many rows are kept. -/
def buffered (fan : Fan) : Nat :=
  (fan.pool.splitters[fan.splitter]?.map fun splitter => splitter.cache.size).getD 0

/-- How many rows a consumer got in a schedule. -/
def rowsRead (fan : Fan) (i : Nat) : List Act → Nat
  | [] => 0
  | a :: earlier =>
    if a = .next i ∧ ((fan.run earlier).act a).1.isRow then fan.rowsRead i earlier + 1
    else fan.rowsRead i earlier

/-! ## Schedules -/

/-- How many consumers a schedule opens. -/
def opened : List Act → Nat
  | [] => 0
  | .consume :: earlier => opened earlier + 1
  | _ :: earlier => opened earlier

/-- Whether a consumer has been opened, and neither closed nor dropped since. The first consumer
is refused unless the supply can be opened. -/
def alive (opens : Bool) (i : Nat) : List Act → Bool
  | [] => false
  | .consume :: earlier =>
    (i == opened earlier && (opens || 0 < opened earlier)) || alive opens i earlier
  | .next _ :: earlier => alive opens i earlier
  | .close j :: earlier => i != j && alive opens i earlier
  | .drop j :: earlier => i != j && alive opens i earlier

/-- How often a consumer that is alive was asked for its next row. -/
def asked (opens : Bool) (i : Nat) : List Act → Nat
  | [] => 0
  | .next j :: earlier =>
    if i = j ∧ alive opens i earlier then asked opens i earlier + 1 else asked opens i earlier
  | _ :: earlier => asked opens i earlier

/-- The number of a consumer says how many were opened before it. -/
theorem lt_opened_of_alive {opens : Bool} {i : Nat} {history : List Act}
    (h : alive opens i history) : i < opened history := by
  induction history with
  | nil => cases h
  | cons a earlier ih =>
    cases a with
    | consume =>
      rw [alive, Bool.or_eq_true, Bool.and_eq_true, beq_iff_eq] at h
      rw [opened]
      rcases h with ⟨rfl, -⟩ | h
      · exact Nat.lt_succ_self _
      · exact Nat.lt_succ_of_lt (ih h)
    | next j => exact ih h
    | close j =>
      rw [alive, Bool.and_eq_true] at h
      exact ih h.2
    | drop j =>
      rw [alive, Bool.and_eq_true] at h
      exact ih h.2

/-- A consumer that has not been opened yet was asked for nothing. -/
theorem asked_of_not_yet {opens : Bool} {i : Nat} {history : List Act}
    (h : opened history ≤ i) : asked opens i history = 0 := by
  induction history with
  | nil => rfl
  | cons a earlier ih =>
    cases a with
    | consume => exact ih (Nat.le_of_succ_le h)
    | next j =>
      have h : opened earlier ≤ i := h
      rw [asked, if_neg fun hj => absurd (lt_opened_of_alive hj.2) (Nat.not_lt.2 h)]
      exact ih h
    | close j => exact ih h
    | drop j => exact ih h

/-! ## What the pool contributes -/

section Serving

variable {s : SplitterId} {delivered : Except OpError RowFeed} {waits : Pool → Prop}
  {stands : Nat → Pool → Prop}

/-- The cursor of a consumer that has been asked for a row `k` times. -/
def readerAfter (s : SplitterId) (feed : RowFeed) (k : Nat) : Cursor :=
  .reader s (min k feed.length) (feed.breaks && feed.length < k)

/-- A splitter serves what its supply delivers: nobody has opened the supply (`waits`), or so many
rows have been kept (`stands`). -/
structure Serves (s : SplitterId) (delivered : Except OpError RowFeed) (waits : Pool → Prop)
    (stands : Nat → Pool → Prop) : Prop where
  waiting : ∀ {pool : Pool}, waits pool → ∃ splitter, pool.splitters[s]? = some splitter ∧
    splitter.opens = 0 ∧ splitter.cache.size = 0
  standing : ∀ {m : Nat} {pool : Pool}, stands m pool → ∃ splitter,
    pool.splitters[s]? = some splitter ∧ splitter.opens = 1 ∧ splitter.cache.size = m
  within : ∀ {m : Nat} {pool : Pool}, stands m pool → m ≤ (Feed.orFailed delivered).length
  /-- The first consumer opens the supply. -/
  first : ∀ {pool : Pool} (layout : Layout), waits pool → ∃ pool',
    pool.openPlan (.reader s layout) = (delivered.map fun _ => .reader s 0 false, pool') ∧
      stands 0 pool'
  later : ∀ {m : Nat} {pool : Pool} (layout : Layout), stands m pool → ∃ pool',
    pool.openPlan (.reader s layout) = (.ok (.reader s 0 false), pool') ∧ stands m pool'
  /-- A consumer behind the rows that are kept makes the supply deliver one more. -/
  next : ∀ {m position : Nat} {pool : Pool}, stands m pool → position ≤ m → ∃ pool',
    match (Feed.orFailed delivered).drop position with
    | .next r _ =>
      (Cursor.reader s position false).next pool =
          (.ok (some r), .reader s (position + 1) false, pool') ∧
        stands (max m (position + 1)) pool'
    | .done =>
      (Cursor.reader s position false).next pool = (.ok none, .reader s position false, pool') ∧
        stands m pool'
    | .failed e =>
      (Cursor.reader s position false).next pool = (.error e, .reader s position true, pool') ∧
        stands m pool'
  waitsSwept : ∀ {pool : Pool} {inUse : List SplitterId}, s ∈ inUse → waits pool →
    waits (pool.sweep inUse)
  standsSwept : ∀ {m : Nat} {pool : Pool} {inUse : List SplitterId}, s ∈ inUse → stands m pool →
    stands m (pool.sweep inUse)

theorem next_of_closed (s : SplitterId) (position : Nat) (pool : Pool) :
    (Cursor.reader s position true).next pool = (.ok none, .reader s position true, pool) := by
  rw [Cursor.next, Cursor.nextWithin, Cursor.step]

/-- What a consumer that has been asked `k` times gets when it is asked once more. -/
theorem Serves.request (hserves : Serves s delivered waits stands) {m k : Nat} {pool : Pool}
    (hstands : stands m pool) (hm : min k (Feed.orFailed delivered).length ≤ m) : ∃ pool',
    (readerAfter s (.orFailed delivered) k).next pool =
        ((Feed.orFailed delivered).answer k, readerAfter s (.orFailed delivered) (k + 1), pool') ∧
      stands (max m (min (k + 1) (Feed.orFailed delivered).length)) pool' := by
  have hwithin := hserves.within hstands
  generalize hfeed : Feed.orFailed delivered = feed at hm hwithin ⊢
  obtain ⟨pool', hnext⟩ := hserves.next hstands hm
  rw [hfeed] at hnext
  -- whether the reader has passed the end
  by_cases hk : feed.length < k
  · have hmin : min k feed.length = feed.length := by omega
    have hmin' : min (k + 1) feed.length = feed.length := by omega
    have hmax : max m (min (k + 1) feed.length) = m := by omega
    rw [Feed.answer_of_length_lt hk, hmax]
    rw [hmin] at hnext
    have hbreaks := feed.breaks_drop feed.length
    have hlength := feed.length_drop feed.length
    have hlt : feed.length < k + 1 := by omega
    unfold readerAfter
    rw [hmin, hmin', decide_eq_true hk, decide_eq_true hlt, Bool.and_true]
    cases hdrop : feed.drop feed.length with
    | done =>
      rw [hdrop] at hnext hbreaks
      rw [← hbreaks]
      exact ⟨pool', hnext⟩
    | failed e =>
      rw [hdrop] at hbreaks
      rw [← hbreaks]
      exact ⟨pool, next_of_closed s _ pool, hstands⟩
    | next r rest =>
      rw [hdrop, Feed.length] at hlength
      omega
  · have hk : k ≤ feed.length := Nat.not_lt.1 hk
    have hmin : min k feed.length = k := Nat.min_eq_left hk
    rw [Feed.answer_eq_drop hk]
    rw [hmin] at hnext
    have hbreaks := feed.breaks_drop k
    have hlength := feed.length_drop k
    unfold readerAfter
    rw [hmin, decide_eq_false (Nat.not_lt.2 hk), Bool.and_false]
    cases hdrop : feed.drop k with
    | done =>
      rw [hdrop] at hnext hbreaks hlength
      rw [Feed.length] at hlength
      have hmin' : min (k + 1) feed.length = k := by omega
      have hmax : max m k = m := by omega
      rw [hmin', hmax, ← hbreaks]
      exact ⟨pool', hnext⟩
    | failed e =>
      rw [hdrop] at hnext hbreaks hlength
      rw [Feed.length] at hlength
      have hmin' : min (k + 1) feed.length = k := by omega
      have hmax : max m k = m := by omega
      have hlt : feed.length < k + 1 := by omega
      rw [hmin', hmax, ← hbreaks, decide_eq_true hlt]
      exact ⟨pool', hnext⟩
    | next r rest =>
      rw [hdrop] at hnext
      have hlt : k + 1 ≤ feed.length := Feed.lt_length_of_drop hdrop
      rw [Nat.min_eq_left hlt, decide_eq_false (Nat.not_lt.2 hlt), Bool.and_false]
      exact ⟨pool', hnext⟩

variable (s delivered waits stands) in
/-- What a fan looks like after a schedule. The number of rows that are kept is the largest number
of rows that a consumer has asked for, as far as there are rows. -/
structure Tracks (start : Fan) (history : List Act) : Prop where
  splitter : (start.run history).splitter = s
  length : (start.run history).consumers.length = opened history
  live : ∀ i, alive delivered.isOk i history →
    (start.run history).consumers[i]? =
      some (some (readerAfter s (.orFailed delivered) (asked delivered.isOk i history)))
  /-- A consumer that is not alive is gone or closed. -/
  silent : ∀ i c, alive delivered.isOk i history = false →
    (start.run history).consumers[i]? = some (some c) → ∃ position, c = .reader s position true
  idle : opened history = 0 → waits (start.run history).pool
  busy : 0 < opened history → ∃ m, stands m (start.run history).pool ∧
    IsGreatest (Set.range fun i =>
      min (asked delivered.isOk i history) (Feed.orFailed delivered).length) m
  read : ∀ i, start.rowsRead i history =
    min (asked delivered.isOk i history) (Feed.orFailed delivered).length

theorem set_of_getElem? {α : Type} {l : List α} {i : Nat} {a : α} (h : l[i]? = some a) :
    l.set i a = l := by
  obtain ⟨hi, rfl⟩ := List.getElem?_eq_some_iff.1 h
  exact List.set_getElem_self hi

/-- An act on a consumer that exists. -/
theorem use_of_getElem? {fan : Fan} {i : Nat} {c : Cursor} (h : fan.consumers[i]? = some (some c))
    (f : Cursor → Pool → Answer × Cursor × Pool) :
    fan.use i f = ((f c fan.pool).1,
      { fan with
        pool := (f c fan.pool).2.2
        consumers := fan.consumers.set i (some (f c fan.pool).2.1) }) := by
  unfold use
  rw [h]

namespace Tracks

variable {start : Fan} {history : List Act}

/-- A consumer that is gone or closed gets nothing, and nothing changes. -/
theorem next_silent (h : Tracks s delivered waits stands start history) {i : Nat}
    (hi : alive delivered.isOk i history = false) :
    (start.run history).act (.next i) = (.ok none, start.run history) := by
  show (start.run history).use i Cursor.next = _
  cases hc : (start.run history).consumers[i]? with
  | none =>
    unfold use
    rw [hc]
  | some c =>
    cases c with
    | none =>
      unfold use
      rw [hc]
    | some c =>
      obtain ⟨position, rfl⟩ := h.silent i c hi hc
      rw [use_of_getElem? hc, next_of_closed, set_of_getElem? hc]

/-- A consumer that is alive gets the row of its position. -/
theorem next_live (hserves : Serves s delivered waits stands)
    (h : Tracks s delivered waits stands start history) {i : Nat}
    (hi : alive delivered.isOk i history) : ∃ m pool,
      stands (max m (min (asked delivered.isOk i history + 1) (Feed.orFailed delivered).length)) pool ∧
      IsGreatest (Set.range fun i =>
        min (asked delivered.isOk i history) (Feed.orFailed delivered).length) m ∧
      (start.run history).act (.next i) =
        ((Feed.orFailed delivered).answer (asked delivered.isOk i history),
          { start.run history with
            pool := pool
            consumers := (start.run history).consumers.set i
              (some (readerAfter s (.orFailed delivered) (asked delivered.isOk i history + 1))) }) := by
  obtain ⟨m, hstands, hgreatest⟩ := h.busy (Nat.zero_lt_of_lt (lt_opened_of_alive hi))
  obtain ⟨pool, hnext, hpool⟩ := hserves.request hstands (hgreatest.2 ⟨i, rfl⟩)
  refine ⟨m, pool, hpool, hgreatest, ?_⟩
  show (start.run history).use i Cursor.next = _
  rw [use_of_getElem? (h.live i hi), hnext]

/-- One more consumer is opened, or the first one is refused. -/
theorem consume_act (hserves : Serves s delivered waits stands)
    (h : Tracks s delivered waits stands start history) : ∃ m pool,
      stands m pool ∧
      IsGreatest (Set.range fun i =>
        min (asked delivered.isOk i history) (Feed.orFailed delivered).length) m ∧
      (start.run history).act .consume =
        (if opened history = 0 then delivered.map fun _ => none else .ok none,
          { start.run history with
            pool := pool
            consumers := (start.run history).consumers ++
              [if delivered.isOk || 0 < opened history then some (.reader s 0 false) else none] }) := by
  have hopening : (Plan.reader (start.run history).splitter (start.run history).layout) =
      .reader s (start.run history).layout := by rw [h.splitter]
  by_cases hnone : opened history = 0
  · obtain ⟨pool, hopen, hpool⟩ := hserves.first (start.run history).layout (h.idle hnone)
    -- nobody has asked yet, so nothing has been kept
    have hzero : ∀ i, asked delivered.isOk i history = 0 := fun i =>
      asked_of_not_yet (by omega)
    refine ⟨0, pool, hpool, ⟨⟨0, ?_⟩, ?_⟩, ?_⟩
    · show min (asked delivered.isOk 0 history) _ = 0
      rw [hzero, Nat.zero_min]
    · rintro m ⟨i, rfl⟩
      show min (asked delivered.isOk i history) _ ≤ 0
      rw [hzero, Nat.zero_min]
    · rw [if_pos hnone, hnone]
      show (start.run history).consume = _
      rw [consume, hopening, hopen]
      cases delivered <;> rfl
  · have hsome : 0 < opened history := Nat.pos_of_ne_zero hnone
    -- the supply has been started, or has refused to, by the first one
    obtain ⟨m, hstands, hgreatest⟩ := h.busy hsome
    obtain ⟨pool, hopen, hpool⟩ := hserves.later (start.run history).layout hstands
    refine ⟨m, pool, hpool, hgreatest, ?_⟩
    rw [if_neg hnone, if_pos (by simp [hsome])]
    show (start.run history).consume = _
    rw [consume, hopening, hopen]

end Tracks

/-! ## Schedules, act by act -/

theorem rowsRead_of_ne {start : Fan} {history : List Act} {a : Act} {i : Nat} (h : a ≠ .next i) :
    start.rowsRead i (a :: history) = start.rowsRead i history := by
  rw [rowsRead, if_neg fun ha => h ha.1]

namespace Serves

variable {start : Fan} {history : List Act}

theorem tracks_consume (hserves : Serves s delivered waits stands)
    (h : Tracks s delivered waits stands start history) :
    Tracks s delivered waits stands start (.consume :: history) := by
  obtain ⟨m, pool, hstands, hgreatest, hact⟩ := h.consume_act hserves
  have hrun : start.run (.consume :: history) = ((start.run history).act .consume).2.swept := rfl
  rw [hact] at hrun
  constructor
  case splitter =>
    rw [hrun]
    exact h.splitter
  case length =>
    rw [hrun]
    simp [swept, h.length, opened]
  case live =>
    intro i hi
    rw [alive, Bool.or_eq_true, Bool.and_eq_true, beq_iff_eq] at hi
    rw [hrun]
    simp only [swept, asked]
    -- the new consumer stands at the beginning, the others where they stood
    rcases hi with ⟨rfl, hopens⟩ | hi
    · rw [if_pos hopens, List.getElem?_append_right (Nat.le_of_eq h.length), h.length, Nat.sub_self,
        asked_of_not_yet (Nat.le_refl _)]
      simp [readerAfter]
    · have hlt : i < (start.run history).consumers.length := by
        rw [h.length]
        exact lt_opened_of_alive hi
      rw [List.getElem?_append_left hlt]
      exact h.live i hi
  case silent =>
    intro i c hi hc
    rw [alive, Bool.or_eq_false_iff] at hi
    rw [hrun] at hc
    simp only [swept] at hc
    rcases Nat.lt_trichotomy i (opened history) with hlt | rfl | hgt
    · rw [List.getElem?_append_left (by rwa [h.length])] at hc
      exact h.silent i c hi.2 hc
    · -- the consumer that was refused
      have hrefused : (delivered.isOk || decide (0 < opened history)) = false := by
        simpa using hi.1
      rw [List.getElem?_append_right (Nat.le_of_eq h.length), h.length, Nat.sub_self, hrefused] at hc
      cases hc
    · rw [List.getElem?_eq_none (by simp [h.length]; omega)] at hc
      cases hc
  case idle => exact fun hnone => absurd hnone (Nat.succ_ne_zero _)
  case busy =>
    intro _
    rw [hrun]
    exact ⟨m, hserves.standsSwept (List.mem_cons.2 (.inl h.splitter.symm)) hstands, hgreatest⟩
  case read =>
    intro i
    rw [rowsRead_of_ne Act.noConfusion]
    exact h.read i

/-- Sweeping changes nothing that is tracked. -/
theorem busy_swept (hserves : Serves s delivered waits stands) {fan : Fan} {m : Nat}
    (hs : fan.splitter = s) (h : stands m fan.pool) : stands m fan.swept.pool :=
  hserves.standsSwept (List.mem_cons.2 (.inl hs.symm)) h

/-- Nobody is served who is not alive. -/
theorem tracks_next_silent (hserves : Serves s delivered waits stands)
    (h : Tracks s delivered waits stands start history) {i : Nat}
    (hi : alive delivered.isOk i history = false) :
    Tracks s delivered waits stands start (.next i :: history) := by
  have hact := h.next_silent hi
  have hrun : start.run (.next i :: history) = (start.run history).swept := by
    rw [run, hact]
  -- asking in vain does not count as asking
  have hasked : ∀ j, asked delivered.isOk j (.next i :: history) =
      asked delivered.isOk j history := by
    intro j
    rw [asked, if_neg]
    rintro ⟨rfl, hj⟩
    rw [hi] at hj
    cases hj
  constructor
  case splitter => rw [hrun]; exact h.splitter
  case length => rw [hrun]; exact h.length
  case live => intro j hj; rw [hrun, hasked]; exact h.live j hj
  case silent => intro j c hj hc; rw [hrun] at hc; exact h.silent j c hj hc
  case idle =>
    intro hnone
    rw [hrun]
    exact hserves.waitsSwept (List.mem_cons.2 (.inl h.splitter.symm)) (h.idle hnone)
  case busy =>
    intro hsome
    obtain ⟨m, hstands, hgreatest⟩ := h.busy hsome
    simp only [hrun, hasked]
    exact ⟨m, hserves.busy_swept h.splitter hstands, hgreatest⟩
  case read =>
    intro j
    rw [hasked, rowsRead, hact, if_neg, h.read]
    exact fun hrow => Bool.noConfusion hrow.2

/-- One more request of one consumer. -/
theorem isGreatest_of_request {f g : Nat → Nat} {i m : Nat} (h : IsGreatest (Set.range f) m)
    (hi : f i ≤ g i) (hothers : ∀ j, j ≠ i → g j = f j) :
    IsGreatest (Set.range g) (max m (g i)) := by
  obtain ⟨⟨j, hj⟩, hmax⟩ := h
  constructor
  · by_cases hle : m ≤ g i
    · exact ⟨i, (Nat.max_eq_right hle).symm⟩
    · have hji : j ≠ i := by
        rintro rfl
        omega
      exact ⟨j, by rw [hothers j hji, hj]; omega⟩
  · rintro _ ⟨k, rfl⟩
    by_cases hki : k = i
    · subst hki
      exact Nat.le_max_right _ _
    · rw [hothers k hki]
      exact Nat.le_trans (hmax ⟨k, rfl⟩) (Nat.le_max_left _ _)

theorem isRow_answer (feed : RowFeed) (k : Nat) :
    Answer.isRow (feed.answer k) ↔ k < feed.length := by
  rw [← Feed.answer_eq_some_iff]
  cases feed.answer k with
  | error e => simp [Answer.isRow]
  | ok row? => cases row? <;> simp [Answer.isRow]

theorem tracks_next_live (hserves : Serves s delivered waits stands)
    (h : Tracks s delivered waits stands start history) {i : Nat}
    (hi : alive delivered.isOk i history) :
    Tracks s delivered waits stands start (.next i :: history) := by
  obtain ⟨m, pool, hstands, hgreatest, hact⟩ := h.next_live hserves hi
  have hrun : start.run (.next i :: history) = ((start.run history).act (.next i)).2.swept := rfl
  rw [hact] at hrun
  -- only the position of the one that asks moves
  have hself : asked delivered.isOk i (.next i :: history) = asked delivered.isOk i history + 1 := by
    rw [asked, if_pos ⟨rfl, hi⟩]
  have hother : ∀ j, j ≠ i → asked delivered.isOk j (.next i :: history) =
      asked delivered.isOk j history := fun j hj => by
    rw [asked, if_neg fun hij => hj hij.1]
  constructor
  case splitter => rw [hrun]; exact h.splitter
  case length => rw [hrun]; simp [swept, h.length, opened]
  case live =>
    intro j hj
    have hj : alive delivered.isOk j history := hj
    rw [hrun]
    simp only [swept]
    by_cases hij : j = i
    · subst hij
      rw [List.getElem?_set_self (by rw [h.length]; exact lt_opened_of_alive hj), hself]
    · rw [List.getElem?_set_ne (Ne.symm hij), hother j hij]
      exact h.live j hj
  case silent =>
    intro j c hj hc
    have hj : alive delivered.isOk j history = false := hj
    have hij : i ≠ j := by
      rintro rfl
      rw [hi] at hj
      cases hj
    rw [hrun] at hc
    simp only [swept] at hc
    rw [List.getElem?_set_ne hij] at hc
    exact h.silent j c hj hc
  case idle =>
    intro hnone
    have hlt : i < opened history := lt_opened_of_alive hi
    have hnone : opened history = 0 := hnone
    omega
  case busy =>
    intro _
    rw [hrun]
    refine ⟨_, hserves.busy_swept h.splitter hstands, ?_⟩
    rw [← hself]
    refine isGreatest_of_request hgreatest ?_ fun j hj => ?_
    · show min _ _ ≤ min _ _
      rw [hself]
      omega
    · show min _ _ = min _ _
      rw [hother j hj]
  case read =>
    intro j
    by_cases hij : j = i
    · subst hij
      rw [rowsRead, hact, h.read, hself]
      -- a row counts as read unless the delivery is at its end
      by_cases hlt : asked delivered.isOk j history < (Feed.orFailed delivered).length
      · rw [if_pos ⟨rfl, (isRow_answer _ _).2 hlt⟩]
        omega
      · rw [if_neg fun hrow => hlt ((isRow_answer _ _).1 hrow.2)]
        omega
    · have hne : Act.next i ≠ .next j := fun heq => hij (Act.next.inj heq).symm
      rw [rowsRead_of_ne hne, hother j hij]
      exact h.read j

/-- A consumer that is closed or dropped is alive no more. -/
theorem tracks_retired (hserves : Serves s delivered waits stands)
    (h : Tracks s delivered waits stands start history) {a : Act} {i : Nat}
    (ha : a = .close i ∨ a = .drop i) {consumers : List (Option Cursor)}
    (hrun : start.run (a :: history) = { start.run history with consumers := consumers }.swept)
    (hlength : consumers.length = opened history)
    (hothers : ∀ j, j ≠ i → consumers[j]? = (start.run history).consumers[j]?)
    (hgone : ∀ c, consumers[i]? = some (some c) → ∃ position, c = .reader s position true) :
    Tracks s delivered waits stands start (a :: history) := by
  -- the reader that is gone is the only one for which anything changes
  have halive : ∀ j, alive delivered.isOk j (a :: history) =
      (j != i && alive delivered.isOk j history) := by
    rcases ha with rfl | rfl <;> exact fun _ => rfl
  have hopened : opened (a :: history) = opened history := by
    rcases ha with rfl | rfl <;> rfl
  have hasked : ∀ j, asked delivered.isOk j (a :: history) = asked delivered.isOk j history := by
    rcases ha with rfl | rfl <;> exact fun _ => rfl
  constructor
  case splitter => rw [hrun]; exact h.splitter
  case length => rw [hrun, hopened]; exact hlength
  case live =>
    intro j hj
    rw [halive, Bool.and_eq_true, bne_iff_ne] at hj
    rw [hrun, hasked]
    exact (hothers j hj.1).trans (h.live j hj.2)
  case silent =>
    intro j c hj hc
    rw [hrun] at hc
    have hc : consumers[j]? = some (some c) := hc
    by_cases hij : j = i
    · subst hij
      exact hgone c hc
    · have hj : alive delivered.isOk j history = false := by
        simpa [halive, hij] using hj
      rw [hothers j hij] at hc
      exact h.silent j c hj hc
  case idle =>
    intro hnone
    rw [hopened] at hnone
    rw [hrun]
    exact hserves.waitsSwept (List.mem_cons.2 (.inl h.splitter.symm)) (h.idle hnone)
  case busy =>
    intro hsome
    rw [hopened] at hsome
    obtain ⟨m, hstands, hgreatest⟩ := h.busy hsome
    have hstands : stands m { start.run history with consumers := consumers }.pool := hstands
    simp only [hrun, hasked]
    exact ⟨m, hserves.busy_swept h.splitter hstands, hgreatest⟩
  case read =>
    intro j
    rw [hasked, rowsRead_of_ne (by rcases ha with rfl | rfl <;> exact Act.noConfusion)]
    exact h.read j

theorem tracks_drop (hserves : Serves s delivered waits stands)
    (h : Tracks s delivered waits stands start history) (i : Nat) :
    Tracks s delivered waits stands start (.drop i :: history) := by
  refine hserves.tracks_retired h (.inr rfl) rfl ?_ ?_ ?_
  · rw [List.length_set, h.length]
  · exact fun j hj => List.getElem?_set_ne (Ne.symm hj)
  · intro c hc
    rw [List.getElem?_set] at hc
    split at hc
    · split at hc <;> cases hc
    · contradiction

theorem tracks_close (hserves : Serves s delivered waits stands)
    (h : Tracks s delivered waits stands start history) (i : Nat) :
    Tracks s delivered waits stands start (.close i :: history) := by
  have hrun : start.run (.close i :: history) = ((start.run history).act (.close i)).2.swept := rfl
  cases hc : (start.run history).consumers[i]? with
  | none =>
    rw [act, use, hc] at hrun
    exact hserves.tracks_retired h (.inl rfl) hrun h.length (fun _ _ => rfl)
      fun c hc' => by simp [hc] at hc'
  | some c? =>
    cases c? with
    | none =>
      rw [act, use, hc] at hrun
      exact hserves.tracks_retired h (.inl rfl) hrun h.length (fun _ _ => rfl)
        fun c hc' => by simp [hc] at hc'
    | some c =>
      -- whether it is alive or not, a consumer is a reader of the splitter
      obtain ⟨position, closed, rfl⟩ : ∃ position closed, c = .reader s position closed := by
        by_cases hi : alive delivered.isOk i history
        · rw [h.live i hi] at hc
          obtain rfl := Option.some.inj (Option.some.inj hc)
          exact ⟨_, _, rfl⟩
        · obtain ⟨position, rfl⟩ := h.silent i c (Bool.eq_false_iff.2 hi) hc
          exact ⟨position, true, rfl⟩
      rw [act, use_of_getElem? hc] at hrun
      simp only [Cursor.close] at hrun
      refine hserves.tracks_retired h (.inl rfl) hrun ?_ ?_ ?_
      · rw [List.length_set, h.length]
      · exact fun j hj => List.getElem?_set_ne (Ne.symm hj)
      · intro c hc'
        have hlt : i < (start.run history).consumers.length := (List.getElem?_eq_some_iff.1 hc).1
        rw [List.getElem?_set_self hlt] at hc'
        exact ⟨position, (Option.some.inj (Option.some.inj hc')).symm⟩

/-- Before anything is done. -/
theorem tracks_start (hs : start.splitter = s) (hnone : start.consumers = [])
    (hwaits : waits start.pool) : Tracks s delivered waits stands start [] := by
  constructor
  case splitter => exact hs
  case length => exact congrArg List.length hnone
  case live => exact fun i hi => Bool.noConfusion hi
  case silent =>
    intro i c _ hc
    have hc : start.consumers[i]? = some (some c) := hc
    rw [hnone] at hc
    cases hc
  case idle => exact fun _ => hwaits
  case busy => exact fun hsome => absurd hsome (Nat.lt_irrefl 0)
  case read => exact fun i => (Nat.zero_min _).symm

theorem tracks_run (hserves : Serves s delivered waits stands) (hs : start.splitter = s)
    (hnone : start.consumers = []) (hwaits : waits start.pool) :
    ∀ history : List Act, Tracks s delivered waits stands start history
  | [] => tracks_start hs hnone hwaits
  | .consume :: history => hserves.tracks_consume (hserves.tracks_run hs hnone hwaits history)
  | .next i :: history => by
    have h := hserves.tracks_run hs hnone hwaits history
    by_cases hi : alive delivered.isOk i history
    · exact hserves.tracks_next_live h hi
    · exact hserves.tracks_next_silent h (Bool.eq_false_iff.2 hi)
  | .close i :: history => hserves.tracks_close (hserves.tracks_run hs hnone hwaits history) i
  | .drop i :: history => hserves.tracks_drop (hserves.tracks_run hs hnone hwaits history) i

end Serves

end Serving

/-- The consumers are served as if each of them read the supply alone. -/
structure Transparent (delivered : Except OpError RowFeed) (start : Fan) (history : List Act) :
    Prop where
  /-- If the supply cannot be opened, then the first consumer is told. -/
  consume : ((start.run history).act .consume).1 =
    if opened history = 0 then delivered.map fun _ => none else .ok none
  /-- A consumer that is alive gets what its position in the supply holds: a row, nothing behind the
  last row, or the failure of the supply. -/
  next : ∀ i, alive delivered.isOk i history → ((start.run history).act (.next i)).1 =
    (Feed.orFailed delivered).answer (asked delivered.isOk i history)
  /-- Others get nothing. -/
  silent : ∀ i, alive delivered.isOk i history = false →
    ((start.run history).act (.next i)).1 = .ok none
  /-- The supply is opened with the first consumer, and only then. -/
  opens : (start.run history).opens = min (opened history) 1
  /-- The splitter keeps as many rows as the consumer that is furthest has read. -/
  buffered : IsGreatest (Set.range fun i => start.rowsRead i history) (start.run history).buffered

theorem Serves.transparent {s : SplitterId} {delivered : Except OpError RowFeed}
    {waits : Pool → Prop} {stands : Nat → Pool → Prop} (hserves : Serves s delivered waits stands)
    {start : Fan} {history : List Act} (h : Tracks s delivered waits stands start history) :
    Transparent delivered start history := by
  have hread : (fun i => start.rowsRead i history) = fun i =>
      min (asked delivered.isOk i history) (Feed.orFailed delivered).length := funext h.read
  constructor
  case consume =>
    obtain ⟨m, pool, -, -, hact⟩ := h.consume_act hserves
    rw [hact]
  case next =>
    intro i hi
    obtain ⟨m, pool, -, -, hact⟩ := h.next_live hserves hi
    rw [hact]
  case silent => intro i hi; rw [h.next_silent hi]
  case opens =>
    unfold opens
    rw [h.splitter]
    -- before the first consumer the supply is still waiting
    rcases Nat.eq_zero_or_pos (opened history) with hnone | hsome
    · obtain ⟨splitter, hs, hopens, -⟩ := hserves.waiting (h.idle hnone)
      simp [hs, hopens, hnone]
    · obtain ⟨m, hstands, -⟩ := h.busy hsome
      obtain ⟨splitter, hs, hopens, -⟩ := hserves.standing hstands
      simp only [hs, hopens, Option.map_some, Option.getD_some]
      omega
  case buffered =>
    unfold Fan.buffered
    rw [h.splitter, hread]
    rcases Nat.eq_zero_or_pos (opened history) with hnone | hsome
    · obtain ⟨splitter, hs, -, hempty⟩ := hserves.waiting (h.idle hnone)
      have hzero : ∀ i, asked delivered.isOk i history = 0 := fun i => asked_of_not_yet (by omega)
      simp only [hs, hempty, hzero, Option.map_some, Option.getD_some, Nat.zero_min]
      exact ⟨⟨0, rfl⟩, by rintro _ ⟨i, rfl⟩; exact Nat.le_refl 0⟩
    · obtain ⟨m, hstands, hgreatest⟩ := h.busy hsome
      obtain ⟨splitter, hs, -, hsize⟩ := hserves.standing hstands
      simpa [hs, hsize] using hgreatest

end Fan
end GraphShapes
