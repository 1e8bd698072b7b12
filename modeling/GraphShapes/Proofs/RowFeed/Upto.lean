import GraphShapes.Plan.Meaning
import GraphShapes.Proofs.RowFeed.Items
import Mathlib.Data.List.Forall2

/-!
# Feeds that break off early

A feed goes along with another (`Feed.Upto`) if it delivers the same items up to a failure of its
own, or to the same end. A computation goes along with another (`Except.Upto`) if it fails, or if
both have results that are related. What every operator makes of feeds that go along with others
goes along with what it makes of those: no operator turns an early failure into a row, or into an
end. There is one lemma for each operator; those with two inputs recurse as the operator does.
-/

namespace GraphShapes

/-- If the first computation succeeds, then so does the second, with a related result. -/
def Except.Upto {ε ε' α β : Type} (R : α → β → Prop) (x : Except ε α) (y : Except ε' β) : Prop :=
  ∀ a, x = .ok a → ∃ b, y = .ok b ∧ R a b

namespace Except.Upto

variable {ε ε' α β γ δ : Type} {R R' : α → β → Prop} {S : γ → δ → Prop}

theorem pure {a : α} {b : β} (h : R a b) :
    Except.Upto R (.ok a : Except ε α) (.ok b : Except ε' β) := by
  intro a' ha
  obtain rfl := Except.ok.inj ha
  exact ⟨b, rfl, h⟩

/-- A computation that fails goes along with any other. -/
theorem error (e : ε) (y : Except ε' β) : Except.Upto R (.error e) y := nofun

/-- Every computation goes along with itself. -/
theorem refl (x : Except ε α) : Except.Upto Eq x x := fun a h => ⟨a, h, rfl⟩

/-- What failures are turned into does not matter. -/
theorem mapError {x : Except ε α} {y : Except ε' β} (h : Except.Upto R x y) {ε₁ ε₂ : Type}
    (f : ε → ε₁) (g : ε' → ε₂) : Except.Upto R (x.mapError f) (y.mapError g) := by
  cases x with
  | error e => exact error (f e) _
  | ok a =>
    obtain ⟨b, rfl, hab⟩ := h a rfl
    exact pure hab

/-- One computation after the other: what follows has to go along for related results only. -/
theorem bind {x : Except ε α} {y : Except ε' β} {f : α → Except ε γ} {g : β → Except ε' δ}
    (h : Except.Upto R x y) (hf : ∀ a b, R a b → Except.Upto S (f a) (g b)) :
    Except.Upto S (x >>= f) (y >>= g) := by
  cases x with
  | error e => exact error e _
  | ok a =>
    obtain ⟨b, rfl, hab⟩ := h a rfl
    exact hf a b hab

theorem map {x : Except ε α} {y : Except ε' β} {f : α → γ} {g : β → δ} (h : Except.Upto R x y)
    (hf : ∀ a b, R a b → S (f a) (g b)) : Except.Upto S (x.map f) (y.map g) := by
  cases x with
  | error e => exact error e _
  | ok a =>
    obtain ⟨b, rfl, hab⟩ := h a rfl
    exact pure (hf a b hab)

/-- Going on with the same question after an answer. -/
theorem bindEq {x : Except ε α} {y : Except ε' α} {f : α → Except ε γ} {g : α → Except ε' δ}
    (h : Except.Upto Eq x y) (hf : ∀ a, Except.Upto S (f a) (g a)) :
    Except.Upto S (x >>= f) (y >>= g) := by
  refine h.bind fun a b hab => ?_
  subst hab
  exact hf a

/-- Filtering by tests that may fail, each of which goes along with its counterpart. -/
theorem filterM {f : α → Except ε Bool} {g : α → Except ε' Bool}
    (h : ∀ a, Except.Upto Eq (f a) (g a)) (l : List α) :
    Except.Upto Eq (l.filterM f) (l.filterM g) := by
  have haux : ∀ (l acc : List α), Except.Upto Eq (l.filterAuxM f acc) (l.filterAuxM g acc) := by
    intro l
    induction l with
    | nil => exact fun acc => pure rfl
    | cons a l ih => exact fun acc => (h a).bindEq fun b => ih (cond b (a :: acc) acc)
  exact (haux l []).bindEq fun _ => pure rfl

end Except.Upto

namespace Feed

variable {ε α β : Type}

/-- The feed is the other one, or breaks off before its end. -/
inductive Upto : Feed ε α → Feed ε α → Prop where
  | done : Upto done done
  | failed (e : ε) (feed : Feed ε α) : Upto (failed e) feed
  | next (a : α) {rest rest' : Feed ε α} (h : Upto rest rest') : Upto (next a rest) (next a rest')

namespace Upto

variable {feed feed' : Feed ε α}

/-- Every feed goes along with itself. -/
theorem refl : ∀ feed : Feed ε α, feed.Upto feed
  | Feed.done => done
  | Feed.failed e => failed e _
  | Feed.next a rest => next a (refl rest)

/-- A feed that breaks off after its first rows goes along with the one that delivers all of them.
-/
theorem breaking (e : ε) : ∀ (n : Nat) (l : List α), (breaking e (l.take n)).Upto (ofList l)
  | 0, _ => failed e _
  | _ + 1, [] => failed e _
  | n + 1, a :: l => next a (breaking e n l)

/-- Reading all of a feed: it fails, or the rows are those of the other. -/
theorem toExcept (h : feed.Upto feed') : Except.Upto Eq feed.toExcept feed'.toExcept := by
  induction h with
  | done => exact .pure rfl
  | failed e feed => exact .error e _
  | next a _ ih => exact ih.map fun _ _ hl => congrArg _ hl

/-- Asking for the first item only. -/
theorem nonempty (h : feed.Upto feed') : Except.Upto Eq feed.nonempty feed'.nonempty := by
  cases h with
  | done => exact .pure rfl
  | failed e feed => exact .error e _
  | next a _ => exact .pure rfl

/-- Reading only so many items: a failure behind them is never met. -/
theorem takeUpTo : ∀ (n : Nat) {feed feed' : Feed ε α}, feed.Upto feed' →
    Except.Upto Eq (feed.takeUpTo n) (feed'.takeUpTo n)
  | 0, _, _, h => h.nonempty.map fun _ _ hmore => congrArg _ hmore
  | _ + 1, _, _, .done => .pure rfl
  | _ + 1, _, _, .failed e _ => .error e _
  | n + 1, _, _, .next a h => (takeUpTo n h).map fun _ _ hl => by rw [hl]

/-- Changing every item. -/
theorem map (f : α → β) (h : feed.Upto feed') : (feed.map f).Upto (feed'.map f) := by
  induction h with
  | done => exact done
  | failed e feed => exact failed e _
  | next a _ ih => exact next (f a) ih

/-- Dropping items. -/
theorem filter (keep : α → Bool) (h : feed.Upto feed') :
    (feed.filter keep).Upto (feed'.filter keep) := by
  induction h with
  | done => exact done
  | failed e feed => exact failed e _
  | next a _ ih =>
    rw [Feed.filter, Feed.filter]
    cases keep a with
    | true => exact next a ih
    | false => exact ih

/-- Putting items in front, which arrive before any failure. -/
theorem prepend (h : feed.Upto feed') : ∀ l : List α, (prepend l feed).Upto (prepend l feed')
  | [] => h
  | a :: l => next a (prepend h l)

/-- Replacing items by several, by a computation that may itself fail early. -/
theorem expand {f g : α → Except ε (List β)} (hf : ∀ a, Except.Upto Eq (f a) (g a))
    (h : feed.Upto feed') : (feed.expand f).Upto (feed'.expand g) := by
  induction h with
  | done => exact done
  | failed e feed => exact failed e _
  | next a _ ih =>
    rw [Feed.expand]
    cases hfa : f a with
    | error e => exact failed e _
    | ok l =>
      obtain ⟨_, hga, rfl⟩ := hf a l hfa
      rw [Feed.expand, hga]
      exact ih.prepend l

end Upto

end Feed

namespace RowFeed

variable {feed feed' left left' right right' : RowFeed}

/-- Sorting reads everything first, so an early failure comes before the first row. -/
theorem sorted_upto (h : feed.Upto feed') : (sorted feed).Upto (sorted feed') := by
  unfold sorted
  cases hrows : feed.toExcept with
  | error e => exact .failed e _
  | ok rows =>
    obtain ⟨_, hrows', rfl⟩ := h.toExcept rows hrows
    rw [hrows']
    exact .refl _

/-- Dropping repetitions: up to the failure the same rows have been seen. -/
theorem uniqueFrom_upto (width : Option Nat) (h : feed.Upto feed') :
    ∀ seen : List (List Term), (uniqueFrom width seen feed).Upto (uniqueFrom width seen feed') := by
  induction h with
  | done => exact fun _ => .done
  | failed e feed => exact fun _ => .failed e _
  | next row _ ih =>
    intro seen
    rw [uniqueFrom, uniqueFrom]
    by_cases hseen : row.keyOf width ∈ seen
    · rw [if_pos hseen, if_pos hseen]
      exact ih seen
    · rw [if_neg hseen, if_neg hseen]
      exact .next row (ih _)

/-! ## Merging -/

/-- One row of the left feed, given how the rest of the merge goes along. -/
theorem mergeNext_upto (row : Row) {mergeRest mergeRest' : RowFeed → RowFeed}
    (hrest : ∀ {right right' : RowFeed}, right.Upto right' →
      (mergeRest right).Upto (mergeRest' right')) (h : right.Upto right') :
    (mergeNext row mergeRest right).Upto (mergeNext row mergeRest' right') := by
  induction h with
  | done => exact .next row (hrest .done)
  | failed e feed => exact .failed e _
  | next other h ih =>
    rw [mergeNext, mergeNext]
    by_cases hle : (row.compare other).isLE = true
    · rw [if_pos hle, if_pos hle]
      exact .next row (hrest (.next other h))
    · rw [if_neg hle, if_neg hle]
      exact .next other ih

/-- Merging two feeds, by recursion as the merge recurses. -/
theorem merge_upto (h : left.Upto left') :
    ∀ {right right' : RowFeed}, right.Upto right' → (merge left right).Upto (merge left' right') := by
  induction h with
  | done => exact fun hright => hright
  | failed e feed => exact fun _ => .failed e _
  | next row _ ih => exact fun hright => mergeNext_upto row ih hright

/-- Merging any number of feeds, pair by pair. -/
theorem mergeAll_upto {feeds feeds' : List RowFeed} (h : List.Forall₂ Feed.Upto feeds feeds') :
    (mergeAll feeds).Upto (mergeAll feeds') := by
  induction h with
  | nil => exact .done
  | cons hfeed _ ih => exact merge_upto hfeed ih

/-! ## Joining -/

/-- The same group was read, and the feeds behind it go along. -/
def GroupUpto {α : Type} (a b : α × RowFeed) : Prop := a.1 = b.1 ∧ a.2.Upto b.2

/-- The group of a key is the same, or the feed fails inside it. -/
theorem takeGroup_upto (width : Option Nat) (key : List Term) (h : feed.Upto feed') :
    Except.Upto GroupUpto (takeGroup width key feed) (takeGroup width key feed') := by
  induction h with
  | done => exact .pure ⟨rfl, .done⟩
  | failed e feed => exact .error e _
  | next row h ih =>
    rw [takeGroup, takeGroup]
    by_cases hkey : row.keyOf width = key
    · rw [if_pos hkey, if_pos hkey]
      exact ih.map fun _ _ hgroup => ⟨congrArg (row :: ·) hgroup.1, hgroup.2⟩
    · rw [if_neg hkey, if_neg hkey]
      exact .pure ⟨rfl, .next row h⟩

/-- Joining groups of equal keys: whichever side fails first, nothing is delivered after it. -/
theorem equalsJoin_upto (width : Option Nat) (hl : left.Upto left') (hr : right.Upto right') :
    (equalsJoin width left right).Upto (equalsJoin width left' right') := by
  fun_induction equalsJoin width left right generalizing left' right'
  case case1 e _ | case2 e | case3 _ _ e => exact .failed e _
  case case4 hright =>
    cases hl
    cases hr with
    | done =>
      rw [equalsJoin]
      · exact .done
      · intro e h
        cases h
    | failed e => exact absurd rfl (hright e)
    | next r hrs =>
      rw [equalsJoin]
      · exact .done
      · intro e h
        cases h
  case case5 l ls =>
    cases hl
    cases hr
    rw [equalsJoin]
    exact .done
  case case6 l ls r rs key hlt ih =>
    cases hl with | next _ hls => ?_
    cases hr with | next _ hrs => ?_
    rw [equalsJoin_next, hlt]
    exact ih hls (.next r hrs)
  case case7 l ls r rs key hgt ih =>
    cases hl with | next _ hls => ?_
    cases hr with | next _ hrs => ?_
    rw [equalsJoin_next, hgt]
    exact ih (.next l hls) hrs
  case case8 e _ => exact .failed e _
  case case9 e _ => exact .failed e _
  case case10 l ls r rs key heq lefts ls' hlefts rights rs' hrights ih =>
    cases hl with | next _ hls => ?_
    cases hr with | next _ hrs => ?_
    obtain ⟨⟨_, _⟩, hlefts', rfl, hls'⟩ := takeGroup_upto width _ hls _ hlefts
    obtain ⟨⟨_, _⟩, hrights', rfl, hrs'⟩ := takeGroup_upto width _ hrs _ hrights
    rw [equalsJoin_next, heq]
    simp only
    rw [hlefts', hrights']
    exact (ih hls' hrs').prepend _

/-- Joining on targets. -/
theorem innerJoin_upto (hl : left.Upto left') (hr : right.Upto right') :
    (innerJoin left right).Upto (innerJoin left' right') := by
  fun_induction innerJoin left right generalizing left' right'
  case case1 e _ | case2 e | case3 _ _ e => exact .failed e _
  case case4 hright =>
    cases hl
    cases hr with
    | done =>
      rw [innerJoin]
      · exact .done
      · intro e h
        cases h
    | failed e => exact absurd rfl (hright e)
    | next r hrs =>
      rw [innerJoin]
      · exact .done
      · intro e h
        cases h
  case case5 l ls =>
    cases hl
    cases hr
    rw [innerJoin]
    exact .done
  case case6 l ls r rs hlt ih =>
    cases hl with | next _ hls => ?_
    cases hr with | next _ hrs => ?_
    rw [innerJoin_next, hlt]
    exact ih hls (.next r hrs)
  case case7 l ls r rs hgt ih =>
    cases hl with | next _ hls => ?_
    cases hr with | next _ hrs => ?_
    rw [innerJoin_next, hgt]
    exact ih (.next l hls) hrs
  case case8 e _ => exact .failed e _
  case case9 e _ => exact .failed e _
  case case10 l ls r rs heq lefts ls' hlefts rights rs' hrights ih =>
    cases hl with | next _ hls => ?_
    cases hr with | next _ hrs => ?_
    obtain ⟨⟨_, _⟩, hlefts', rfl, hls'⟩ := takeGroup_upto (some 1) _ hls _ hlefts
    obtain ⟨⟨_, _⟩, hrights', rfl, hrs'⟩ := takeGroup_upto (some 1) _ hrs _ hrights
    rw [innerJoin_next, heq]
    simp only
    rw [hlefts', hrights']
    exact .next _ (ih hls' hrs')

/-- Skipping rows of smaller targets. -/
theorem skipBelow_upto (target : Term) (h : feed.Upto feed') :
    (skipBelow target feed).Upto (skipBelow target feed') := by
  induction h with
  | done => exact .done
  | failed e feed => exact .failed e _
  | next row h ih =>
    rw [skipBelow, skipBelow]
    by_cases hlt : (row.target.compare target).isLT = true
    · rw [if_pos hlt, if_pos hlt]
      exact ih
    · rw [if_neg hlt, if_neg hlt]
      exact .next row h

/-- Dropping targets that the right feed has. A right feed that fails does not let targets through.
-/
theorem antiJoin_upto (hl : left.Upto left') : ∀ {right right' : RowFeed}, right.Upto right' →
    (antiJoin left right).Upto (antiJoin left' right') := by
  induction hl with
  | done => exact fun _ => .done
  | failed e feed => exact fun _ => .failed e _
  | next l _ ih =>
    intro right right' hr
    have hskip := skipBelow_upto l.target hr
    rw [antiJoin, antiJoin]
    generalize skipBelow l.target right = skipped at hskip ⊢
    generalize skipBelow l.target right' = skipped' at hskip ⊢
    cases hskip with
    | done => exact .next l (ih .done)
    | failed e feed => exact .failed e _
    | next r hrs =>
      by_cases htarget : r.target = l.target
      · simp only [htarget, if_true]
        exact ih (.next r hrs)
      · simp only [htarget, if_false]
        exact .next l (ih (.next r hrs))

/-- The values of a target are complete, or the feed fails among them. -/
theorem gather_upto (target : Term) (h : feed.Upto feed') :
    Except.Upto GroupUpto (gather target feed) (gather target feed') := by
  induction h with
  | done => exact .pure ⟨rfl, .done⟩
  | failed e feed => exact .error e _
  | next row h ih =>
    rw [gather, gather]
    by_cases hlt : (row.target.compare target).isLT = true
    · rw [if_pos hlt, if_pos hlt]
      exact ih
    · rw [if_neg hlt, if_neg hlt]
      by_cases heq : row.target = target
      · rw [if_pos heq, if_pos heq]
        exact ih.map fun _ _ hgroup => ⟨congrArg (row.value?.toList ++ ·) hgroup.1, hgroup.2⟩
      · rw [if_neg heq, if_neg heq]
        exact .pure ⟨rfl, .next row h⟩

/-- Testing the values of every target: no test is made on values that are incomplete. -/
theorem countValues_upto (test : List Term → Bool) (hl : left.Upto left') :
    ∀ {right right' : RowFeed}, right.Upto right' →
      (countValues test left right).Upto (countValues test left' right') := by
  induction hl with
  | done => exact fun _ => .done
  | failed e feed => exact fun _ => .failed e _
  | next t _ ih =>
    intro right right' hr
    rw [countValues, countValues]
    cases hgather : gather t.target right with
    | error e => exact .failed e _
    | ok group =>
      obtain ⟨⟨vs, values⟩, hgather', hvs, hvalues⟩ := gather_upto t.target hr group hgather
      obtain ⟨vs', values'⟩ := group
      obtain rfl : vs' = vs := hvs
      rw [hgather']
      by_cases htest : test vs' = true
      · simp only [htest, if_true]
        exact .next _ (ih hvalues)
      · simp only [htest]
        exact ih hvalues

end RowFeed

end GraphShapes
