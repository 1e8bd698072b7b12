import GraphShapes.Proofs.Cursor.Final

/-!
# Looking ahead changes nothing

A lookahead may be asked in any order to hand on the next row, to show it, to fetch it, or to show
it if it has been fetched. `Lookahead.peeking_transparent`: whatever has been asked of a lookahead over
a cursor that does not fail and stays at its end, the requests for the next row were answered as the
cursor alone would have answered them, a look shows what the following request hands on, and the
cursor has been asked at most once more than the lookahead.

The row in view may be unknown, a row, or the end, which is handed on once and then asked for again.
`Lookahead.upcoming` puts the three together: it is the sequence of answers that the lookahead still
has to give. A look leaves it as it is and a request for the next row takes its first answer away
(`upcoming_fill`, `upcoming_next`), so that after any requests it is what is left of the answers of
the cursor (`upcoming_after`).
-/

namespace GraphShapes

namespace Cursor

/-- The cursor and the pool after so many requests for the next row. -/
def pulled (c : Cursor) (pool : Pool) (n : Nat) : Cursor × Pool :=
  c.after (List.replicate n .next) pool

/-- What the cursor answers to a request for the next row after so many others. -/
def pull (c : Cursor) (pool : Pool) (n : Nat) : Except OpError (Option Row) :=
  ((c.pulled pool n).1.next (c.pulled pool n).2).1

/-- Asking a cursor again goes on where it was left. -/
theorem pulled_add (c : Cursor) (pool : Pool) (m n : Nat) :
    c.pulled pool (m + n) = (c.pulled pool m).1.pulled (c.pulled pool m).2 n := by
  rw [pulled, List.replicate_add, after_append]
  rfl

/-- No answer is a failure, and behind an end nothing comes. -/
structure Regular (answers : Nat → Except OpError (Option Row)) : Prop where
  answered : ∀ n, ∃ row, answers n = .ok row
  final : ∀ n, answers n = .ok none → answers (n + 1) = .ok none

/-- The later answers are as regular as all of them. -/
theorem Regular.later {answers : Nat → Except OpError (Option Row)} (h : Regular answers)
    (k : Nat) : Regular fun n => answers (k + n) where
  answered n := h.answered (k + n)
  final n := h.final (k + n)

/-- If the first answer is that there is nothing, so are all others. -/
theorem Regular.of_ended {answers : Nat → Except OpError (Option Row)} (h : Regular answers)
    (hend : answers 0 = .ok none) : ∀ n, answers n = .ok none
  | 0 => hend
  | n + 1 => h.final n (h.of_ended hend n)

/-- A cursor from which more may come stays at its end; all that can keep it from being regular is a
failure. -/
theorem Live.final {c : Cursor} {pool : Pool} (h : c.Live pool) {n : Nat}
    (hend : c.pull pool n = .ok none) : c.pull pool (n + 1) = .ok none := by
  have hdone : (c.pulled pool (n + 1)).1.Done (c.pulled pool (n + 1)).2 := by
    rw [pulled_add]
    rcases h.after (List.replicate n .next) with hlive | hdone
    · have hfinal : ((c.pulled pool n).1.next (c.pulled pool n).2).Final := hlive.answer .next
      unfold pull at hend
      show Done ((c.pulled pool n).1.next (c.pulled pool n).2).2.1
        ((c.pulled pool n).1.next (c.pulled pool n).2).2.2
      generalize (c.pulled pool n).1.next (c.pulled pool n).2 = answer at hend hfinal ⊢
      obtain ⟨result, c', pool'⟩ := answer
      obtain rfl : result = .ok none := hend
      exact hfinal
    · exact (hdone.after [.next]).1
  obtain ⟨c', hnext, -⟩ := hdone.next
  rw [pull, hnext]

/-- The lookahead of a cursor. One that has none has not been looked at. -/
def lookahead : Cursor → Lookahead
  | .ahead l => l
  | c => .fresh c

/-- Step by step, a lookahead without a row in view does what the cursor behind it does. If the steps
run out, it takes the cursor for ended. -/
theorem nextWithin_ahead (access : Access) : ∀ (fuel : Nat) (c : Cursor) (pool : Pool),
    ∃ head, nextWithin access fuel (.ahead (.mk c .unknown)) pool =
        ((nextWithin access fuel c pool).1, .ahead (.mk (nextWithin access fuel c pool).2.1 head),
          (nextWithin access fuel c pool).2.2) ∧
      (head = .unknown ∨ head = .ended ∧ (nextWithin access fuel c pool).1 = .ok none)
  | 0, _, _ => ⟨.ended, rfl, .inr ⟨rfl, rfl⟩⟩
  | fuel + 1, c, pool => by
    rw [nextWithin, nextWithin, Cursor.step]
    generalize c.step access pool = step
    obtain ⟨outcome, c', pool'⟩ := step
    cases outcome with
    | row r => exact ⟨.unknown, rfl, .inl rfl⟩
    | ended => exact ⟨.unknown, rfl, .inl rfl⟩
    | failed e => exact ⟨.unknown, rfl, .inl rfl⟩
    | busy => exact nextWithin_ahead access fuel c' pool'

end Cursor

open Cursor (Regular)

/-- What is in view after a look. -/
def Head.seen : Option Row → Head
  | some r => .row r
  | none => .ended

/-- What was seen is in view. -/
theorem Head.row?_seen (row : Option Row) : (seen row).row? = row := by
  cases row <;> rfl

/-- The next row is unknown or has been seen, be it the end. -/
theorem Head.unknown_or_seen (head : Head) : head = .unknown ∨ ∃ row, head = seen row := by
  cases head with
  | unknown => exact .inl rfl
  | ended => exact .inr ⟨none, rfl⟩
  | row r => exact .inr ⟨some r, rfl⟩

/-- How many answers have been fetched that were not handed on. -/
def Head.fetched : Head → Nat
  | .unknown => 0
  | _ => 1

theorem Head.fetched_seen (row : Option Row) : (seen row).fetched = 1 := by
  cases row <;> rfl

/-- At most one answer has been fetched and not been handed on. -/
theorem Head.fetched_le (head : Head) : head.fetched ≤ 1 := by
  rcases head.unknown_or_seen with rfl | ⟨row, rfl⟩
  · exact Nat.zero_le 1
  · exact Nat.le_of_eq (fetched_seen row)

namespace Lookahead

/-! ## Requests -/

/-- What can be asked of a lookahead. -/
inductive Request where
  | next
  | peek
  | fill
  /-- The row in view, as far as somebody has looked. -/
  | inView
deriving DecidableEq

/-- An answer, the lookahead after it, and the pool after it. -/
abbrev Reply := Except OpError (Option Row) × Lookahead × Pool

/-- Hands the next row on. -/
def next (l : Lookahead) (pool : Pool) : Reply :=
  let (answer, c, pool) := (Cursor.ahead l).next pool
  (answer, c.lookahead, pool)

/-- Fetching the next row answers nothing. -/
def Request.reply : Request → Lookahead → Pool → Reply
  | next, l, pool => l.next pool
  | peek, l, pool => l.peek pool
  | fill, l, pool => ((l.fill pool).1.map fun _ => none, (l.fill pool).2)
  | inView, l, pool => (.ok l.head.row?, l, pool)

/-- How often a request asks the cursor behind the row in view. -/
def Request.pulls : Request → Head → Nat
  | inView, _ => 0
  | _, .unknown => 1
  | _, _ => 0

/-- The lookahead and the pool after requests, the last of which comes first. -/
def after (l : Lookahead) (pool : Pool) : List Request → Lookahead × Pool
  | [] => (l, pool)
  | r :: earlier => (r.reply (l.after pool earlier).1 (l.after pool earlier).2).2

/-- What the requests for the next row were answered, in their order. -/
def handedOn (l : Lookahead) (pool : Pool) : List Request → List (Except OpError (Option Row))
  | [] => []
  | .next :: earlier =>
    l.handedOn pool earlier ++ [((l.after pool earlier).1.next (l.after pool earlier).2).1]
  | _ :: earlier => l.handedOn pool earlier

/-- How often the cursor behind the row in view was asked. -/
def pulls (l : Lookahead) (pool : Pool) : List Request → Nat
  | [] => 0
  | r :: earlier => l.pulls pool earlier + r.pulls (l.after pool earlier).1.head

/-! ## What a request does -/

variable {c : Cursor} {l : Lookahead} {pool : Pool}

theorem head_mk (c : Cursor) (head : Head) : (mk c head).head = head := rfl

/-- A row that was seen is handed on without asking the cursor. -/
theorem next_seen (c : Cursor) (row : Option Row) (pool : Pool) :
    (mk c (.seen row)).next pool = (.ok row, mk c .unknown, pool) := by
  cases row <;> (rw [next, Cursor.next, Cursor.nextWithin, Head.seen, Cursor.step]; rfl)

/-- Otherwise the cursor is asked, and only its end is remembered. -/
theorem next_unknown (c : Cursor) (pool : Pool) : ∃ head,
    (mk c .unknown).next pool = ((c.next pool).1, mk (c.next pool).2.1 head, (c.next pool).2.2) ∧
      (head = .unknown ∨ head = .ended ∧ (c.next pool).1 = .ok none) := by
  obtain ⟨head, hnext, hhead⟩ := Cursor.nextWithin_ahead (Pool.access pool.splitters.size)
    (pool.budget + 1) c pool
  refine ⟨head, ?_, hhead⟩
  rw [next, Cursor.next, hnext]
  rfl

/-- Fetching does nothing if the next row has been seen. -/
theorem fill_seen (c : Cursor) (row : Option Row) (pool : Pool) :
    (mk c (.seen row)).fill pool = (.ok (), mk c (.seen row), pool) := by
  cases row <;> rfl

/-- Otherwise it asks the cursor and keeps the answer. -/
theorem fill_unknown {row : Option Row} (h : (c.next pool).1 = .ok row) :
    (mk c .unknown).fill pool =
      (.ok (), mk (c.next pool).2.1 (.seen row), (c.next pool).2.2) := by
  rw [fill]
  generalize c.next pool = answer at h ⊢
  obtain ⟨result, c', pool'⟩ := answer
  obtain rfl : result = .ok row := h
  cases row <;> rfl

/-- A failure is not kept. -/
theorem fill_failed {e : OpError} (h : (c.next pool).1 = .error e) :
    (mk c .unknown).fill pool =
      (.error e, mk (c.next pool).2.1 .unknown, (c.next pool).2.2) := by
  rw [fill]
  generalize c.next pool = answer at h ⊢
  obtain ⟨result, c', pool'⟩ := answer
  obtain rfl : result = .error e := h
  rfl

/-- A look shows what has been fetched. -/
theorem peek_of_fill {c' : Cursor} {row : Option Row} {pool' : Pool}
    (h : l.fill pool = (.ok (), mk c' (.seen row), pool')) :
    l.peek pool = (.ok row, mk c' (.seen row), pool') := by
  rw [peek, h]
  show (Except.ok (Head.seen row).row?, mk c' (.seen row), pool') = _
  rw [Head.row?_seen]

/-- A look leaves behind what fetching the row leaves behind. -/
theorem Request.snd_reply_peek (l : Lookahead) (pool : Pool) :
    (peek.reply l pool).2 = (fill.reply l pool).2 := by
  show (l.peek pool).2 = (l.fill pool).2
  rw [Lookahead.peek]
  generalize l.fill pool = filled
  obtain ⟨result, l', pool'⟩ := filled
  cases result <;> rfl

/-- Where the next row is in view, no request asks the cursor behind it. -/
theorem Request.pulls_seen (r : Request) (row : Option Row) : r.pulls (.seen row) = 0 := by
  cases r <;> cases row <;> rfl

/-- No request asks the cursor twice, and none asks while an answer is kept. -/
theorem Request.pulls_add_fetched_le (r : Request) (head : Head) :
    r.pulls head + head.fetched ≤ 1 := by
  rcases head.unknown_or_seen with rfl | ⟨row, rfl⟩
  · cases r <;> decide
  · rw [pulls_seen, Head.fetched_seen]

/-- Whether or not the cursor fails, it stands behind a request where it was asked to go. -/
theorem Request.inner_reply (r : Request) (l : Lookahead) (pool : Pool) :
    ((r.reply l pool).2.1.inner, (r.reply l pool).2.2) =
      l.inner.pulled pool (r.pulls l.head) := by
  obtain ⟨c, head⟩ := l
  -- filling the view is all that a peek does with the cursor
  have hfill : (((mk c head).fill pool).2.1.inner, ((mk c head).fill pool).2.2) =
      c.pulled pool (fill.pulls head) := by
    rcases head.unknown_or_seen with rfl | ⟨row, rfl⟩
    · cases hanswer : (c.next pool).1 with
      | ok row =>
        rw [fill_unknown hanswer]
        rfl
      | error e =>
        rw [fill_failed hanswer]
        rfl
    · rw [fill_seen, pulls_seen]
      rfl
  cases r with
  | next =>
    show (((mk c head).next pool).2.1.inner, ((mk c head).next pool).2.2) = _
    rcases head.unknown_or_seen with rfl | ⟨row, rfl⟩
    · obtain ⟨head', hnext, -⟩ := next_unknown c pool
      rw [hnext]
      rfl
    · rw [next_seen, head_mk, pulls_seen]
      rfl
  | peek =>
    have hpulls : peek.pulls head = fill.pulls head := by cases head <;> rfl
    rw [snd_reply_peek, head_mk, hpulls]
    exact hfill
  | fill => exact hfill
  | inView => rfl

/-! ## What is still to come -/

/-- The answers that a lookahead still has to give to requests for the next row. -/
def upcoming (l : Lookahead) (pool : Pool) (n : Nat) : Except OpError (Option Row) :=
  match l.head, n with
  | .unknown, n => l.inner.pull pool n
  | head, 0 => .ok head.row?
  | _, n + 1 => l.inner.pull pool n

/-- The first answer to come is the one that was seen. -/
theorem upcoming_seen_zero (c : Cursor) (row : Option Row) (pool : Pool) :
    (mk c (.seen row)).upcoming pool 0 = .ok row := by
  cases row <;> rfl

/-- After that come the answers of the cursor. -/
theorem upcoming_seen_succ (c : Cursor) (row : Option Row) (pool : Pool) (n : Nat) :
    (mk c (.seen row)).upcoming pool (n + 1) = c.pull pool n := by
  cases row <;> rfl

/-- A row in view is the first to come. -/
theorem upcoming_zero_of_row {row : Row} (h : l.head.row? = some row) :
    l.upcoming pool 0 = .ok (some row) := by
  obtain ⟨c, head⟩ := l
  cases head with
  | row r => exact congrArg Except.ok h
  | unknown => cases h
  | ended => cases h

/-- Handing a row on takes the first answer away. -/
theorem upcoming_next (h : Regular (l.upcoming pool)) :
    (l.next pool).1 = l.upcoming pool 0 ∧
      ∀ n, (l.next pool).2.1.upcoming (l.next pool).2.2 n = l.upcoming pool (n + 1) := by
  obtain ⟨c, head⟩ := l
  rcases head.unknown_or_seen with rfl | ⟨row, rfl⟩
  · obtain ⟨head, hnext, rfl | ⟨rfl, hend⟩⟩ := next_unknown c pool
    · rw [hnext]
      exact ⟨rfl, fun _ => rfl⟩
    · -- the end was taken for granted, and nothing comes behind it
      rw [hnext]
      refine ⟨rfl, fun n => ?_⟩
      have hnone : ∀ n, c.pull pool n = .ok none := h.of_ended hend
      cases n with
      | zero => exact (hnone 1).symm
      | succ n => exact (hnone (n + 1)).trans (hnone (n + 2)).symm
  · rw [next_seen]
    exact ⟨(upcoming_seen_zero c row pool).symm, fun n => (upcoming_seen_succ c row pool n).symm⟩

/-- A look brings the first answer into view and leaves all of them as they are. -/
theorem upcoming_fill (h : Regular (l.upcoming pool)) : ∃ c row pool',
    l.fill pool = (.ok (), mk c (.seen row), pool') ∧ l.upcoming pool 0 = .ok row ∧
      ∀ n, (mk c (.seen row)).upcoming pool' n = l.upcoming pool n := by
  obtain ⟨c, head⟩ := l
  rcases head.unknown_or_seen with rfl | ⟨row, rfl⟩
  · obtain ⟨row, hrow⟩ := h.answered 0
    have hanswer : (c.next pool).1 = .ok row := hrow
    refine ⟨_, row, _, fill_unknown hanswer, hrow, fun n => ?_⟩
    cases n with
    | zero => exact (upcoming_seen_zero _ row _).trans hrow.symm
    | succ n => exact upcoming_seen_succ _ row _ n
  · exact ⟨c, row, pool, fill_seen c row pool, upcoming_seen_zero c row pool, fun _ => rfl⟩

/-- What a request leaves of the answers that are still to come. -/
theorem Request.upcoming_reply (r : Request) (h : Regular (l.upcoming pool)) (n : Nat) :
    (r.reply l pool).2.1.upcoming (r.reply l pool).2.2 n =
      l.upcoming pool ([r].count .next + n) := by
  have hlook : (fill.reply l pool).2.1.upcoming (fill.reply l pool).2.2 n =
      l.upcoming pool (0 + n) := by
    obtain ⟨c, row, pool', hfill, -, hsame⟩ := upcoming_fill h
    show (l.fill pool).2.1.upcoming (l.fill pool).2.2 n = _
    rw [hfill, Nat.zero_add]
    exact hsame n
  cases r with
  | next =>
    rw [Nat.add_comm]
    exact (upcoming_next h).2 n
  | peek =>
    rw [snd_reply_peek]
    exact hlook
  | fill => exact hlook
  | inView => exact congrArg _ (Nat.zero_add n).symm

/-! ## Any requests -/

theorem count_cons (r : Request) (earlier : List Request) :
    (r :: earlier).count .next = earlier.count .next + [r].count .next := by
  show ([r] ++ earlier).count .next = _
  rw [List.count_append, Nat.add_comm]

/-- After any requests, what is left of the answers of the cursor is still to come. -/
theorem upcoming_after (h : Regular (c.pull pool)) : ∀ (history : List Request) (n : Nat),
    ((fresh c).after pool history).1.upcoming ((fresh c).after pool history).2 n =
      c.pull pool (history.count .next + n)
  | [], n => congrArg _ (Nat.zero_add n).symm
  | r :: earlier, n => by
    have hsofar := upcoming_after h earlier
    have hregular : Regular
        (((fresh c).after pool earlier).1.upcoming ((fresh c).after pool earlier).2) := by
      rw [funext hsofar]
      exact h.later _
    rw [after, r.upcoming_reply hregular, hsofar, count_cons r earlier, Nat.add_assoc]

/-- After any requests, what is still to come does not fail and stays at its end. -/
theorem regular_after (h : Regular (c.pull pool)) (history : List Request) :
    Regular (((fresh c).after pool history).1.upcoming ((fresh c).after pool history).2) := by
  rw [funext (upcoming_after h history)]
  exact h.later _

/-- A request for the next row is answered as the cursor would have answered it. -/
theorem next_after (h : Regular (c.pull pool)) (history : List Request) :
    (((fresh c).after pool history).1.next ((fresh c).after pool history).2).1 =
      c.pull pool (history.count .next) :=
  (upcoming_next (regular_after h history)).1.trans (upcoming_after h history 0)

/-- The requests for the next row are answered as the cursor alone would answer them. -/
theorem handedOn_eq (h : Regular (c.pull pool)) : ∀ history : List Request,
    (fresh c).handedOn pool history = (List.range (history.count .next)).map (c.pull pool)
  | [] => rfl
  | .next :: earlier => by
    rw [handedOn, handedOn_eq h earlier, next_after h, List.count_cons_self, List.range_succ,
      List.map_append]
    rfl
  | .peek :: earlier => handedOn_eq h earlier
  | .fill :: earlier => handedOn_eq h earlier
  | .inView :: earlier => handedOn_eq h earlier

/-- The cursor has been asked as often as the requests say. -/
theorem inner_after (c : Cursor) (pool : Pool) : ∀ history : List Request,
    (((fresh c).after pool history).1.inner, ((fresh c).after pool history).2) =
      c.pulled pool ((fresh c).pulls pool history)
  | [] => rfl
  | r :: earlier => by
    rw [after, pulls, Cursor.pulled_add, ← inner_after c pool earlier]
    exact r.inner_reply _ _

/-- A request that asks the cursor hands its answer on or brings it into view. -/
theorem Request.pulls_le (r : Request) (h : Regular (l.upcoming pool)) :
    r.pulls l.head + l.head.fetched ≤ [r].count .next + (r.reply l pool).2.1.head.fetched := by
  have hone := fun r : Request => r.pulls_add_fetched_le l.head
  have hlook : (fill.reply l pool).2.1.head.fetched = 1 := by
    obtain ⟨c, row, pool', hfill, -, -⟩ := upcoming_fill h
    show (l.fill pool).2.1.head.fetched = 1
    rw [hfill, head_mk, Head.fetched_seen]
  cases r with
  | next => exact Nat.le_add_right_of_le (hone .next)
  | peek =>
    rw [snd_reply_peek, hlook]
    exact hone .peek
  | fill =>
    rw [hlook]
    exact hone .fill
  | inView => exact Nat.le_refl _

/-- The cursor has been asked at most once more than the lookahead. -/
theorem pulls_le_after (h : Regular (c.pull pool)) : ∀ history : List Request,
    (fresh c).pulls pool history ≤
      history.count .next + ((fresh c).after pool history).1.head.fetched
  | [] => Nat.le_refl _
  | r :: earlier => by
    have hstep := r.pulls_le (regular_after h earlier)
    have hsofar := pulls_le_after h earlier
    rw [count_cons, pulls, after]
    omega

/-- A lookahead over the cursor does not show in what comes, whatever has been asked of it. -/
structure Transparent (c : Cursor) (pool : Pool) (history : List Request) : Prop where
  /-- What was handed on is what the cursor answers to as many requests. -/
  handedOn : (fresh c).handedOn pool history = (List.range (history.count .next)).map (c.pull pool)
  /-- A look is answered with what the next request for a row is answered with, whatever else is
  asked in between. -/
  peek : ∀ between, .next ∉ between →
    let now := (fresh c).after pool history
    let later := (fresh c).after pool (between ++ .peek :: history)
    (now.1.peek now.2).1 = (later.1.next later.2).1
  /-- Looking once more changes nothing. -/
  again :
    let now := (fresh c).after pool history
    let peeked := now.1.peek now.2
    peeked.2.1.peek peeked.2.2 = peeked
  fill :
    let now := (fresh c).after pool history
    (now.1.fill now.2).1 = .ok ()
  /-- To show what is in view takes nothing, and a row that is shown is handed on next. -/
  inView :
    let now := (fresh c).after pool history
    let shown := Request.inView.reply now.1 now.2
    shown.2 = now ∧ ∀ row, shown.1 = .ok (some row) → (now.1.next now.2).1 = .ok (some row)
  /-- The cursor and the pool are where so many requests for the next row lead to. -/
  stands :
    let now := (fresh c).after pool history
    (now.1.inner, now.2) = c.pulled pool ((fresh c).pulls pool history)
  within : (fresh c).pulls pool history ≤ history.count .next + 1

/-- Over a cursor that does not fail and stays at its end, a lookahead is transparent. -/
theorem peeking_transparent (h : Regular (c.pull pool)) (history : List Request) :
    Transparent c pool history := by
  have hregular := regular_after h history
  obtain ⟨c', row, pool', hfill, hrow, -⟩ := upcoming_fill hregular
  have hpeek := peek_of_fill hfill
  constructor
  case handedOn => exact handedOn_eq h history
  case peek =>
    intro between hbetween now later
    -- between the peek and the request, no row was handed on
    have hcount : (between ++ .peek :: history).count .next = history.count .next := by
      rw [List.count_append, List.count_eq_zero.2 hbetween, Nat.zero_add]
      exact List.count_cons_of_ne (by decide)
    rw [next_after h, hcount, hpeek, ← hrow]
    exact upcoming_after h history 0
  case again =>
    intro now peeked
    have hpeeked : peeked = (.ok row, mk c' (.seen row), pool') := hpeek
    rw [hpeeked]
    exact peek_of_fill (fill_seen c' row pool')
  case fill =>
    intro now
    rw [hfill]
  case inView =>
    intro now shown
    refine ⟨rfl, fun r hr => ?_⟩
    rw [(upcoming_next hregular).1]
    exact upcoming_zero_of_row (Except.ok.inj hr)
  case stands => exact inner_after c pool history
  case within =>
    exact Nat.le_trans (pulls_le_after h history) (Nat.add_le_add_left (Head.fetched_le _) _)

/-- A filter drops the second of three rows: looks before the first row, between the two rows that are
left and at the end, where the cursor has been asked once more. -/
theorem peeking_transparent_filter :
    let row (n : Int64) : Row := { target := .int n }
    let keep (r : Row) : Bool := r.target ≠ .int 2
    let plan : Plan := .filter (.values [row 1, row 2, row 3] .aggregated) "not 2" keep
    let c : Cursor := .filter (.rows [row 1, row 2, row 3]) keep
    let pool := (Pool.empty.openPlan plan).2
    let history := [.peek, .next, .inView, .peek, .peek, .next, .fill]
    Regular (c.pull pool) ∧ (fresh c).pulls pool history = 3 ∧
      (fresh c).handedOn pool history = [.ok (some (row 1)), .ok (some (row 3))] := by
  intro row keep plan c pool history
  have hlayered : (Pool.ofSplitters #[]).Layered := Pool.layered_ofSplitters (by decide)
  have hcovered : plan.Covered := trivial
  have hlive : c.Live pool := Pool.openPlan_live hlayered hcovered rfl
  have hfirst : c.pull pool 0 = .ok (some (row 1)) := rfl
  have hsecond : c.pull pool 1 = .ok (some (row 3)) := rfl
  have hend : ∀ n, c.pull pool (n + 2) = .ok none := by
    intro n
    induction n with
    | zero => rfl
    | succ n ih => exact hlive.final ih
  have hanswered : ∀ n, ∃ r, c.pull pool n = .ok r
    | 0 => ⟨_, hfirst⟩
    | 1 => ⟨_, hsecond⟩
    | n + 2 => ⟨_, hend n⟩
  have hregular : Regular (c.pull pool) := ⟨hanswered, fun n hn => hlive.final hn⟩
  refine ⟨hregular, by decide +kernel, ?_⟩
  rw [(peeking_transparent hregular history).handedOn]
  show [c.pull pool 0, c.pull pool 1] = _
  rw [hfirst, hsecond]

end Lookahead

end GraphShapes
