import GraphShapes.Feed
import Mathlib.Data.List.Basic

/-!
# Reading a feed by position

`Feed.answer` is what somebody gets who asks for the items of a feed one after the other: the items,
then nothing for ever, or the failure once and nothing after it. `Feed.drop` is what is left of a
feed behind its first items; as long as the end has not been passed, an answer is the first one of
what is left (`answer_eq_drop`).
-/

namespace GraphShapes.Feed

variable {ε α : Type}

/-- The feed, or one that breaks off at once. -/
def orFailed : Except ε (Feed ε α) → Feed ε α
  | .ok feed => feed
  | .error e => failed e

/-- Whether the feed breaks off. -/
def breaks : Feed ε α → Bool
  | done => false
  | failed _ => true
  | next _ rest => rest.breaks

/-- What the request number `k` brings, the first one having the number 0. -/
def answer : Feed ε α → Nat → Except ε (Option α)
  | done, _ => .ok none
  | failed e, 0 => .error e
  | failed _, _ + 1 => .ok none
  | next a _, 0 => .ok (some a)
  | next _ rest, k + 1 => rest.answer k

/-- The feed behind its first `n` items. -/
def drop : Nat → Feed ε α → Feed ε α
  | 0, feed => feed
  | _ + 1, done => done
  | _ + 1, failed e => failed e
  | n + 1, next _ rest => rest.drop n

@[simp]
theorem drop_zero (feed : Feed ε α) : feed.drop 0 = feed := by rw [drop]

/-- Where an item is in front, the others come behind it. -/
theorem drop_succ {feed rest : Feed ε α} {a : α} {n : Nat} (h : feed.drop n = next a rest) :
    feed.drop (n + 1) = rest := by
  induction n generalizing feed with
  | zero =>
    rw [drop_zero] at h
    subst h
    rw [drop, drop_zero]
  | succ n ih =>
    cases feed with
    | done => cases h
    | failed e => cases h
    | next b tail => exact ih h

theorem length_drop (feed : Feed ε α) (n : Nat) : (feed.drop n).length = feed.length - n := by
  induction n generalizing feed with
  | zero => rw [drop_zero, Nat.sub_zero]
  | succ n ih =>
    cases feed with
    | done => simp [drop, length]
    | failed e => simp [drop, length]
    | next a rest => rw [drop, ih, length, Nat.add_sub_add_right]

/-- An item is in front exactly before the last item has been passed. -/
theorem lt_length_of_drop {feed rest : Feed ε α} {a : α} {n : Nat} (h : feed.drop n = next a rest) :
    n < feed.length := by
  have hlength := feed.length_drop n
  rw [h, length] at hlength
  omega

theorem breaks_drop (feed : Feed ε α) (n : Nat) : (feed.drop n).breaks = feed.breaks := by
  induction n generalizing feed with
  | zero => rw [drop_zero]
  | succ n ih =>
    cases feed with
    | done => rfl
    | failed e => rfl
    | next a rest => exact ih rest

/-- Up to the end, an answer is the first answer of what is left. -/
theorem answer_eq_drop {feed : Feed ε α} {k : Nat} (h : k ≤ feed.length) :
    feed.answer k = (feed.drop k).answer 0 := by
  induction k generalizing feed with
  | zero => rw [drop_zero]
  | succ k ih =>
    cases feed with
    | done => exact absurd h (Nat.not_succ_le_zero k)
    | failed e => exact absurd h (Nat.not_succ_le_zero k)
    | next a rest => exact ih (Nat.le_of_succ_le_succ h)

/-- Behind the end, or behind the failure, there is nothing. -/
theorem answer_of_length_lt {feed : Feed ε α} {k : Nat} (h : feed.length < k) :
    feed.answer k = .ok none := by
  induction feed generalizing k with
  | done => rfl
  | failed e =>
    cases k with
    | zero => exact absurd h (Nat.not_lt_zero 0)
    | succ k => rfl
  | next a rest ih =>
    cases k with
    | zero => exact absurd h (Nat.not_lt_zero _)
    | succ k => exact ih (Nat.lt_of_succ_lt_succ h)

/-- An answer is an item exactly before the end. -/
theorem answer_eq_some_iff {feed : Feed ε α} {k : Nat} :
    (∃ a, feed.answer k = .ok (some a)) ↔ k < feed.length := by
  induction feed generalizing k with
  | done => simp [answer, length]
  | failed e => cases k <;> simp [answer, length]
  | next a rest ih =>
    cases k with
    | zero => simp [answer, length]
    | succ k => simp [answer, length, ih]

end GraphShapes.Feed
