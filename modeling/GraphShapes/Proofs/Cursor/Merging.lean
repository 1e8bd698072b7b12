import GraphShapes.Cursor.Merge
import GraphShapes.Proofs.RowFeed.Join

/-!
# The moves of a merge

An operator with two inputs works in small moves, while the join that it computes is a function of
two feeds. `Merge.feed` says what an operator that is collecting something still delivers. Every
move is right: it delivers the next rows of that feed, or nothing, and leaves an operator with the
rest of it (`Merge.move_right`).

A move that is no look at an input uses up something, too: `Merge.steps` is the number of moves that
an operator can still make. A row in view counts for up to five of them, because it can begin a
group, and beginning a group and completing it takes three moves that pass no row.
-/

namespace GraphShapes

namespace Head

/-- The feed that begins with what is in view. -/
def shows (rest : RowFeed) : Head → RowFeed
  | unknown => rest
  | ended => .done
  | row r => .next r rest

/-- The head when the row in view has been handed on, or not. -/
def passIf (handedOn : Bool) (head : Head) : Head := if handedOn then unknown else head

/-- How many moves an input is good for: each of its rows is looked at and counts for five when it is
in view, or as much as is said, and its end is looked at. -/
def steps (view : Row → Nat) (rest : RowFeed) : Head → Nat
  | unknown => 6 * rest.length + 1
  | ended => 0
  | row r => view r + 6 * rest.length + 1

theorem steps_unknown (view : Row → Nat) (rest : RowFeed) :
    unknown.steps view rest = 6 * rest.length + 1 := rfl

theorem steps_row (view : Row → Nat) (rest : RowFeed) (r : Row) :
    (row r).steps view rest = view r + 6 * rest.length + 1 := rfl

/-- An operator can make at most as many moves as a row in view counts for. -/
theorem steps_le {view view' : Row → Nat} {head : Head} (rest : RowFeed)
    (h : ∀ r, head = .row r → view r ≤ view' r) : head.steps view rest ≤ head.steps view' rest := by
  cases head with
  | unknown => exact Nat.le_refl _
  | ended => exact Nat.le_refl _
  | row r =>
    have hr := h r rfl
    simp only [steps]
    omega

@[simp]
theorem passIf_true (head : Head) : head.passIf true = .unknown := rfl

@[simp]
theorem passIf_false (head : Head) : head.passIf false = head := rfl

end Head

/-- How many moves that pass no row complete what is being collected. -/
def Phase.steps : Phase → Nat
  | lefts _ _ => 3
  | rights _ _ _ => 2
  | _ => 0

namespace Merge

/-- What an operator delivers that has collected nothing. -/
def whole : Merge → RowFeed → RowFeed → RowFeed
  | equals w => RowFeed.equalsJoin w
  | inner => RowFeed.innerJoin
  | anti => RowFeed.antiJoin
  | count test => RowFeed.countValues test

/-- What an operator delivers that is collecting the right rows of a group. -/
def rightsFeed (how : Merge) (key : List Term) (lefts rights : List Row) (left right : RowFeed) :
    RowFeed :=
  match RowFeed.takeGroup how.width key right with
  | .error e => .failed e
  | .ok (more, right) => Feed.prepend (how.combine key lefts (rights ++ more)) (how.whole left right)

/-- What an operator delivers that forms groups. -/
def groupFeed (how : Merge) (left right : RowFeed) : Phase → RowFeed
  | .lefts key lefts =>
    match RowFeed.takeGroup how.width key left with
    | .error e => .failed e
    | .ok (more, left) => how.rightsFeed key (lefts ++ more) [] left right
  | .rights key lefts rights => how.rightsFeed key lefts rights left right
  | _ => how.whole left right

/-- What the operator that judges values delivers when it has found some of the first target. -/
def countFeed (test : List Term → Bool) (found : List Term) : RowFeed → RowFeed → RowFeed
  | .next t ts, values =>
    match RowFeed.gather t.target values with
    | .error e => .failed e
    | .ok (vs, values') =>
      if test (found ++ vs) then .next (t.trim 1) (RowFeed.countValues test ts values')
      else RowFeed.countValues test ts values'
  | targets, values => RowFeed.countValues test targets values

/-- What an operator still delivers. -/
def feed (how : Merge) (phase : Phase) (left right : RowFeed) : RowFeed :=
  match how with
  | equals w => (equals w).groupFeed left right phase
  | inner => inner.groupFeed left right phase
  | anti => RowFeed.antiJoin left right
  | count test => countFeed test (found phase) left right

/-- Whether an operator forms groups. -/
def isGrouping : Merge → Bool
  | equals _ => true
  | inner => true
  | _ => false

/-- For how many moves a left row in view counts. -/
def viewLeft (how : Merge) : Phase → Row → Nat
  | .lefts key _, r => if how.isGrouping ∧ r.keyOf how.width = key then 1 else 5
  | _, _ => 5

/-- For how many moves a right row in view counts. -/
def viewRight (how : Merge) : Phase → Row → Nat
  | .rights key _ _, r => if how.isGrouping ∧ r.keyOf how.width = key then 1 else 5
  | _, _ => 5

/-- A row in view on the left counts for at most five moves. -/
theorem viewLeft_le (how : Merge) (phase : Phase) (r : Row) : how.viewLeft phase r ≤ 5 := by
  unfold viewLeft
  split
  · split <;> omega
  · exact Nat.le_refl 5

/-- So does one on the right. -/
theorem viewRight_le (how : Merge) (phase : Phase) (r : Row) : how.viewRight phase r ≤ 5 := by
  unfold viewRight
  split
  · split <;> omega
  · exact Nat.le_refl 5

/-- How many moves an operator can still make. -/
def steps (how : Merge) (phase : Phase) (left right : Head) (ls rs : RowFeed) : Nat :=
  phase.steps + left.steps (how.viewLeft phase) ls + right.steps (how.viewRight phase) rs

/-- What makes a move of an operator right. A look is only taken at an input of which nothing is in
view, and if it fails then so does the operator. Any other move keeps the feed and uses up
something. -/
def Right (how : Merge) (phase : Phase) (left right : Head) (ls rs : RowFeed) : Move → Prop
  | .lookLeft => left = .unknown ∧ ∀ e, how.feed phase (.failed e) (right.shows rs) = .failed e
  | .lookRight => right = .unknown ∧ ∀ e, how.feed phase (left.shows ls) (.failed e) = .failed e
  | .stop => how.feed phase (left.shows ls) (right.shows rs) = .done
  | .go delivered passLeft passRight phase' =>
    how.feed phase (left.shows ls) (right.shows rs) =
        Feed.prepend delivered (how.feed phase' ((left.passIf passLeft).shows ls)
          ((right.passIf passRight).shows rs)) ∧
      how.steps phase' (left.passIf passLeft) (right.passIf passRight) ls rs <
        how.steps phase left right ls rs

/-! ## Groups -/

/-- The equations of the operators that form groups. -/
structure Groups (how : Merge) : Prop where
  grouping : how.isGrouping
  failedLeft : ∀ e right, how.whole (.failed e) right = .failed e
  failedRight : ∀ e, how.whole .done (.failed e) = .failed e
  failedRight' : ∀ e l ls, how.whole (.next l ls) (.failed e) = .failed e
  doneLeft : how.whole .done .done = .done
  doneLeft' : ∀ r rs, how.whole .done (.next r rs) = .done
  doneRight : ∀ l ls, how.whole (.next l ls) .done = .done
  next : ∀ l r ls rs, how.whole (.next l ls) (.next r rs) =
    match Row.compareLines (l.keyOf how.width) (r.keyOf how.width) with
    | .lt => how.whole ls (.next r rs)
    | .gt => how.whole (.next l ls) rs
    | .eq =>
      match RowFeed.takeGroup how.width (l.keyOf how.width) ls with
      | .error e => .failed e
      | .ok (lefts, ls') =>
        match RowFeed.takeGroup how.width (l.keyOf how.width) rs with
        | .error e => .failed e
        | .ok (rights, rs') =>
          Feed.prepend (how.combine (l.keyOf how.width) (l :: lefts) (r :: rights))
            (how.whole ls' rs')

/-- The equality join goes through groups of equal keys. -/
theorem groups_equals (w : Option Nat) : (equals w).Groups where
  grouping := rfl
  failedLeft e right := by simp [whole, RowFeed.equalsJoin]
  failedRight e := by simp [whole, RowFeed.equalsJoin]
  failedRight' e l ls := by simp [whole, RowFeed.equalsJoin]
  doneLeft := by simp [whole, RowFeed.equalsJoin]
  doneLeft' r rs := by simp [whole, RowFeed.equalsJoin]
  doneRight l ls := by simp [whole, RowFeed.equalsJoin]
  next l r ls rs := RowFeed.equalsJoin_next w l r ls rs

/-- So does the inner join. -/
theorem groups_inner : inner.Groups where
  grouping := rfl
  failedLeft e right := by simp [whole, RowFeed.innerJoin]
  failedRight e := by simp [whole, RowFeed.innerJoin]
  failedRight' e l ls := by simp [whole, RowFeed.innerJoin]
  doneLeft := by simp [whole, RowFeed.innerJoin]
  doneLeft' r rs := by simp [whole, RowFeed.innerJoin]
  doneRight l ls := by simp [whole, RowFeed.innerJoin]
  next l r ls rs := by
    show RowFeed.innerJoin (.next l ls) (.next r rs) = _
    rw [RowFeed.innerJoin_next, RowFeed.compare_target]
    rfl

section Groups

variable {how : Merge} (hgroups : how.Groups) (hfeed : ∀ phase left right,
  how.feed phase left right = how.groupFeed left right phase)
include hgroups hfeed

/-- The left rows of a group are being collected. -/
theorem lefts_right (key : List Term) (lefts : List Row) (left right : Head) (ls rs : RowFeed) :
    how.Right (.lefts key lefts) left right ls rs (how.groupMove (.lefts key lefts) left right) := by
  -- when the last left row has been passed, the right rows are next
  have hcomplete : ∀ left : Head, (∀ r, left = .row r → r.keyOf how.width ≠ key) →
      how.steps (.rights key lefts []) left right ls rs <
        how.steps (.lefts key lefts) left right ls rs := by
    intro left hleft
    have hl : left.steps (how.viewLeft (.rights key lefts [])) ls ≤
        left.steps (how.viewLeft (.lefts key lefts)) ls := by
      refine Head.steps_le ls fun r hr => ?_
      simp [viewLeft, hleft r hr]
    have hr : right.steps (how.viewRight (.rights key lefts [])) rs ≤
        right.steps (how.viewRight (.lefts key lefts)) rs :=
      Head.steps_le rs fun r _ => how.viewRight_le _ r
    simp only [steps, Phase.steps]
    omega
  cases left with
  | unknown =>
    refine ⟨rfl, fun e => ?_⟩
    rw [hfeed, groupFeed, RowFeed.takeGroup]
  | ended =>
    refine ⟨?_, hcomplete .ended fun r hr => Head.noConfusion hr⟩
    rw [hfeed, hfeed, groupFeed, groupFeed, Head.shows, RowFeed.takeGroup]
    simp [Head.shows, Feed.prepend]
  | row l =>
    rw [groupMove]
    by_cases hkey : l.keyOf how.width = key
    · rw [if_pos hkey]
      constructor
      · rw [hfeed, hfeed, groupFeed, groupFeed, Head.shows, RowFeed.takeGroup, if_pos hkey]
        simp only [Head.passIf_true, Head.passIf_false, Head.shows, Feed.prepend]
        cases RowFeed.takeGroup how.width key ls with
        | error e => rfl
        | ok group => simp [Except.map]
      · have hview : how.viewRight (.lefts key (lefts ++ [l])) = how.viewRight (.lefts key lefts) := rfl
        simp [steps, Phase.steps, Head.steps, viewLeft, hkey, hview, hgroups.grouping]
    · rw [if_neg hkey]
      refine ⟨?_, hcomplete (.row l) fun r hr => ?_⟩
      · rw [hfeed, hfeed, groupFeed, groupFeed, Head.shows, RowFeed.takeGroup, if_neg hkey]
        simp [Head.shows, Feed.prepend]
      · obtain rfl := Head.row.inj hr
        exact hkey

/-- The right rows of a group are being collected. -/
theorem rights_right (key : List Term) (lefts rights : List Row) (left right : Head)
    (ls rs : RowFeed) : how.Right (.rights key lefts rights) left right ls rs
      (how.groupMove (.rights key lefts rights) left right) := by
  -- with the whole group joined, the key is no longer looked for
  have hcomplete : ∀ right : Head, (∀ r, right = .row r → r.keyOf how.width ≠ key) →
      how.steps .comparing left right ls rs <
        how.steps (.rights key lefts rights) left right ls rs := by
    intro right hright
    have hl : left.steps (how.viewLeft .comparing) ls =
        left.steps (how.viewLeft (.rights key lefts rights)) ls := rfl
    have hr : right.steps (how.viewRight .comparing) rs ≤
        right.steps (how.viewRight (.rights key lefts rights)) rs := by
      refine Head.steps_le rs fun r hr => ?_
      simp [viewRight, hright r hr]
    simp only [steps, Phase.steps]
    omega
  cases right with
  | unknown =>
    have hmove : how.groupMove (.rights key lefts rights) left .unknown = .lookRight := by
      cases left <;> rfl
    rw [hmove]
    refine ⟨rfl, fun e => ?_⟩
    rw [hfeed, groupFeed, rightsFeed, RowFeed.takeGroup]
  | ended =>
    have hmove : how.groupMove (.rights key lefts rights) left .ended =
        .go (how.combine key lefts rights) false false .comparing := by cases left <;> rfl
    rw [hmove]
    refine ⟨?_, hcomplete .ended fun r hr => Head.noConfusion hr⟩
    rw [hfeed, hfeed, groupFeed, groupFeed, rightsFeed, Head.shows, RowFeed.takeGroup]
    · simp [Head.shows]
    · simp
    · simp
  | row r =>
    have hmove : how.groupMove (.rights key lefts rights) left (.row r) =
        if r.keyOf how.width = key then .go [] false true (.rights key lefts (rights ++ [r]))
        else .go (how.combine key lefts rights) false false .comparing := by cases left <;> rfl
    rw [hmove]
    -- the group goes on as long as the key stays the same
    by_cases hkey : r.keyOf how.width = key
    · rw [if_pos hkey]
      constructor
      · rw [hfeed, hfeed, groupFeed, groupFeed, rightsFeed, rightsFeed]
        simp only [Head.passIf_true, Head.passIf_false, Head.shows, Feed.prepend]
        rw [RowFeed.takeGroup, if_pos hkey]
        cases RowFeed.takeGroup how.width key rs with
        | error e => rfl
        | ok group => simp [Except.map]
      · have hview : how.viewLeft (.rights key lefts (rights ++ [r])) =
            how.viewLeft (.rights key lefts rights) := rfl
        simp [steps, Phase.steps, Head.steps, viewRight, hkey, hview, hgroups.grouping]
    · rw [if_neg hkey]
      refine ⟨?_, hcomplete (.row r) fun r' hr => ?_⟩
      · rw [hfeed, hfeed, groupFeed, groupFeed, rightsFeed]
        · simp only [Head.shows, Head.passIf_false]
          rw [RowFeed.takeGroup, if_neg hkey]
          simp
        · simp
        · simp
      · obtain rfl := Head.row.inj hr
        exact hkey

/-- Two rows are compared. -/
theorem compareHeads_right (l r : Row) (ls rs : RowFeed) :
    how.Right .comparing (.row l) (.row r) ls rs (how.compareHeads l r) := by
  unfold compareHeads
  cases hcompare : Row.compareLines (l.keyOf how.width) (r.keyOf how.width) with
  | lt =>
    constructor
    · rw [hfeed, hfeed]
      simp only [groupFeed, Head.shows, Head.passIf_true, Head.passIf_false, Feed.prepend]
      rw [hgroups.next, hcompare]
    · simp [steps, Head.steps, viewLeft]
  | gt =>
    constructor
    · rw [hfeed, hfeed]
      simp only [groupFeed, Head.shows, Head.passIf_true, Head.passIf_false, Feed.prepend]
      rw [hgroups.next, hcompare]
    · simp [steps, Head.steps, viewRight]
  | eq =>
    -- the left rows of the group are collected first, then the right ones
    have hkey : r.keyOf how.width = l.keyOf how.width :=
      (Std.LawfulEqCmp.eq_of_compare hcompare).symm
    constructor
    · rw [hfeed, hfeed]
      simp only [groupFeed, Head.shows, Head.passIf_false, Feed.prepend]
      rw [hgroups.next, hcompare, RowFeed.takeGroup, if_pos rfl]
      simp only
      cases RowFeed.takeGroup how.width (l.keyOf how.width) ls with
      | error e => rfl
      | ok lefts =>
        simp only [Except.map, rightsFeed, List.nil_append]
        rw [RowFeed.takeGroup, if_pos hkey]
        cases RowFeed.takeGroup how.width (l.keyOf how.width) rs with
        | error e => rfl
        | ok rights => rfl
    · simp only [steps, Phase.steps, Head.steps, viewLeft, viewRight, hgroups.grouping, and_self,
        if_true, Head.passIf_false]
      omega

/-- Comparing two inputs that may have ended or not been looked at. -/
theorem comparing_right (left right : Head) (ls rs : RowFeed) :
    how.Right .comparing left right ls rs (how.groupMove .comparing left right) := by
  cases left with
  | unknown =>
    refine ⟨rfl, fun e => ?_⟩
    rw [hfeed]
    exact hgroups.failedLeft e _
  | ended =>
    cases right with
    | unknown =>
      refine ⟨rfl, fun e => ?_⟩
      rw [hfeed]
      exact hgroups.failedRight e
    | ended =>
      show how.feed _ _ _ = _
      rw [hfeed]
      exact hgroups.doneLeft
    | row r =>
      show how.feed _ _ _ = _
      rw [hfeed]
      exact hgroups.doneLeft' r rs
  | row l =>
    cases right with
    | unknown =>
      refine ⟨rfl, fun e => ?_⟩
      rw [hfeed]
      exact hgroups.failedRight' e l ls
    | ended =>
      show how.feed _ _ _ = _
      rw [hfeed]
      exact hgroups.doneRight l ls
    | row r => exact compareHeads_right hgroups hfeed l r ls rs

/-- Every move of an operator that goes through groups is right, phase by phase. -/
theorem groupMove_right (phase : Phase) (left right : Head) (ls rs : RowFeed) :
    how.Right phase left right ls rs (how.groupMove phase left right) := by
  cases phase with
  | comparing => exact comparing_right hgroups hfeed left right ls rs
  | lefts key lefts => exact lefts_right hgroups hfeed key lefts left right ls rs
  | rights key lefts rights => exact rights_right hgroups hfeed key lefts rights left right ls rs
  | values found =>
    -- an operator that forms groups collects no values
    have h := comparing_right hgroups hfeed left right ls rs
    have hsame : ∀ left right, how.feed (.values found) left right =
        how.feed .comparing left right := fun left right => by
      rw [hfeed, hfeed]
      rfl
    have hmove : how.groupMove (.values found) left right = how.groupMove .comparing left right := by
      cases left <;> cases right <;> rfl
    rw [hmove]
    have hsteps : how.steps (.values found) left right ls rs = how.steps .comparing left right ls rs :=
      rfl
    cases hm : how.groupMove .comparing left right <;> rw [hm] at h <;>
      simpa only [Right, hsame, hsteps] using h

end Groups

/-! ## The other operators -/

/-- Every move of the anti join is right. -/
theorem antiMove_right (phase : Phase) (left right : Head) (ls rs : RowFeed) :
    anti.Right phase left right ls rs (antiMove left right) := by
  -- passing a left row makes progress, whatever phase it was in
  have hpassLeft : ∀ l right, anti.steps .comparing .unknown right ls rs <
      anti.steps phase (.row l) right ls rs := by
    intro l right
    have hr : right.steps (anti.viewRight .comparing) rs = right.steps (anti.viewRight phase) rs := by
      cases phase <;> rfl
    have hl : anti.viewLeft phase l = 5 := by cases phase <;> rfl
    simp only [steps, Phase.steps, Head.steps_unknown, Head.steps_row, hl, hr]
    omega
  cases left with
  | unknown => exact ⟨rfl, fun e => by simp [feed, RowFeed.antiJoin]⟩
  | ended => simp [antiMove, Right, feed, Head.shows, RowFeed.antiJoin]
  | row l =>
    cases right with
    | unknown =>
      exact ⟨rfl, fun e => by simp [feed, Head.shows, RowFeed.antiJoin, RowFeed.skipBelow]⟩
    | ended =>
      refine ⟨?_, hpassLeft l .ended⟩
      simp [feed, Head.shows, RowFeed.antiJoin, RowFeed.skipBelow, Feed.prepend]
    | row r =>
      rw [antiMove]
      cases hcompare : r.target.compare l.target with
      | lt =>
        constructor
        · simp [feed, Head.shows, RowFeed.antiJoin, RowFeed.skipBelow, Feed.prepend, hcompare]
        · have hl : anti.viewLeft phase = anti.viewLeft .comparing := by cases phase <;> rfl
          have hr : anti.viewRight phase r = 5 := by cases phase <;> rfl
          simp only [steps, Phase.steps, Head.steps_unknown, Head.steps_row, Head.passIf_true,
            Head.passIf_false, hl, hr]
          omega
      | eq =>
        have heq : r.target = l.target := Std.LawfulEqCmp.eq_of_compare hcompare
        refine ⟨?_, hpassLeft l (.row r)⟩
        simp only [feed, Head.shows, Head.passIf_true, Head.passIf_false, Feed.prepend]
        rw [RowFeed.antiJoin, RowFeed.skipBelow, hcompare]
        simp [heq]
      | gt =>
        refine ⟨?_, hpassLeft l (.row r)⟩
        -- the right rows are all behind this target, so it is not among them
        have hne : r.target ≠ l.target := by
          intro heq
          have hself : l.target.compare l.target = .eq := Std.ReflCmp.compare_self
          rw [heq, hself] at hcompare
          cases hcompare
        simp only [feed, Head.shows, Head.passIf_true, Head.passIf_false, Feed.prepend]
        rw [RowFeed.antiJoin, RowFeed.skipBelow, hcompare]
        simp [hne]

/-- What is collected for the first target is what is found from where the operator stands. -/
theorem countFeed_nil (test : List Term → Bool) (left right : RowFeed) :
    countFeed test [] left right = RowFeed.countValues test left right := by
  cases left with
  | done => rfl
  | failed e => rfl
  | next t ts =>
    rw [countFeed, RowFeed.countValues]
    rfl

/-- In view, every row counts the same for the operator that judges values. -/
theorem steps_count (test : List Term → Bool) (phase phase' : Phase) (left right : Head)
    (ls rs : RowFeed) (h : phase.steps ≤ phase'.steps) :
    (count test).steps phase left right ls rs ≤ (count test).steps phase' left right ls rs := by
  have hview : ∀ phase r, (count test).viewLeft phase r = 5 ∧ (count test).viewRight phase r = 5 := by
    intro phase r
    cases phase <;> exact ⟨rfl, rfl⟩
  have hl : left.steps ((count test).viewLeft phase) ls ≤
      left.steps ((count test).viewLeft phase') ls := by
    refine Head.steps_le ls fun r _ => Nat.le_of_eq ?_
    rw [(hview phase r).1, (hview phase' r).1]
  have hr : right.steps ((count test).viewRight phase) rs ≤
      right.steps ((count test).viewRight phase') rs := by
    refine Head.steps_le rs fun r _ => Nat.le_of_eq ?_
    rw [(hview phase r).2, (hview phase' r).2]
  simp only [steps]
  omega

/-- The first target is judged when no more of its values can come. -/
theorem judge_right {test : List Term → Bool} {t : Row} {right : Head} {rs : RowFeed}
    (h : RowFeed.gather t.target (right.shows rs) = .ok ([], right.shows rs)) (phase : Phase)
    (ls : RowFeed) :
    (count test).Right phase (.row t) right ls rs (judge test t (found phase)) := by
  have hview : (count test).viewLeft .comparing t = 5 := rfl
  constructor
  · show countFeed test (found phase) (.next t ls) (right.shows rs) =
      Feed.prepend _ (countFeed test [] ls (right.shows rs))
    rw [countFeed_nil, countFeed, h]
    simp only [List.append_nil]
    cases test (found phase) <;> rfl
  · refine Nat.lt_of_lt_of_le ?_ (steps_count test .comparing phase (.row t) right ls rs
      (Nat.zero_le _))
    simp only [steps, Head.steps_unknown, Head.steps_row, Head.passIf_true, Head.passIf_false, hview]
    omega

/-- Every move of the count is right. -/
theorem countMove_right (test : List Term → Bool) (phase : Phase) (left right : Head)
    (ls rs : RowFeed) :
    (count test).Right phase left right ls rs (countMove test phase left right) := by
  -- a value is passed
  have hpass : ∀ (phase' : Phase) (t v : Row), phase'.steps ≤ phase.steps →
      (count test).steps phase' (.row t) .unknown ls rs <
        (count test).steps phase (.row t) (.row v) ls rs := by
    intro phase' t v hphase
    refine Nat.lt_of_lt_of_le ?_ (steps_count test phase' phase (.row t) (.row v) ls rs hphase)
    have hv : 1 ≤ (count test).viewRight phase' v := by cases phase' <;> exact Nat.le_add_left 1 4
    simp only [steps, Head.steps_unknown, Head.steps_row]
    omega
  cases left with
  | unknown => exact ⟨rfl, fun e => by simp [feed, countFeed, RowFeed.countValues]⟩
  | ended => simp [countMove, Right, feed, Head.shows, countFeed, RowFeed.countValues]
  | row t =>
    cases right with
    | unknown => exact ⟨rfl, fun e => by simp [feed, Head.shows, countFeed, RowFeed.gather]⟩
    | ended => exact judge_right rfl phase ls
    | row v =>
      rw [countMove]
      cases hcompare : v.target.compare t.target with
      | lt =>
        refine ⟨?_, hpass phase t v (Nat.le_refl _)⟩
        simp only [feed, Head.shows, Head.passIf_true, Head.passIf_false, Feed.prepend, countFeed]
        rw [RowFeed.gather, hcompare]
        rfl
      | eq =>
        have heq : v.target = t.target := Std.LawfulEqCmp.eq_of_compare hcompare
        refine ⟨?_, hpass _ t v (Nat.zero_le _)⟩
        show countFeed test (found phase) (.next t ls) (.next v rs) =
          countFeed test (found phase ++ v.value?.toList) (.next t ls) rs
        rw [countFeed, countFeed, RowFeed.gather, hcompare, if_neg (by decide), if_pos heq]
        cases RowFeed.gather t.target rs with
        | error e => rfl
        | ok group => simp [Except.map]
      | gt =>
        refine judge_right ?_ phase ls
        have hne : v.target ≠ t.target := by
          intro heq
          have hself : t.target.compare t.target = .eq := Std.ReflCmp.compare_self
          rw [heq, hself] at hcompare
          cases hcompare
        rw [Head.shows, RowFeed.gather, hcompare, if_neg (by decide), if_neg hne]

/-- Every move of any operator with two inputs is right. -/
theorem move_right (how : Merge) (phase : Phase) (left right : Head) (ls rs : RowFeed) :
    how.Right phase left right ls rs (how.move phase left right) := by
  cases how with
  | equals w => exact groupMove_right (groups_equals w) (fun _ _ _ => rfl) phase left right ls rs
  | inner => exact groupMove_right groups_inner (fun _ _ _ => rfl) phase left right ls rs
  | anti => exact antiMove_right phase left right ls rs
  | count test => exact countMove_right test phase left right ls rs

end Merge

end GraphShapes
