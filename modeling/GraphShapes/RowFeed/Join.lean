import GraphShapes.RowFeed

/-!
# Joining row feeds

The joins read two feeds that ascend by the columns they compare, always moving on the side that
is behind. Rows with equal keys form a group; a group is read to its end before anything of it is
delivered, so a failure inside a group hides the whole group.

`equalsJoin` pairs the rows of equal groups, `innerJoin` delivers one row for every target that
both sides have, `antiJoin` the left rows whose target the right side does not have, and
`countValues` the targets whose values on the right side pass a test.
-/

namespace GraphShapes.RowFeed

/-- The rows at the beginning of a feed that have a given key, and the feed behind them. -/
def takeGroup (width : Option Nat) (key : List Term) : RowFeed → Except OpError (List Row × RowFeed)
  | .done => .ok ([], .done)
  | .failed e => .error e
  | .next row rest =>
    if row.keyOf width = key then (takeGroup width key rest).map fun (rows, r) => (row :: rows, r)
    else .ok ([], .next row rest)

theorem length_of_takeGroup {width : Option Nat} {key : List Term} {feed rest : RowFeed}
    {rows : List Row} (h : takeGroup width key feed = .ok (rows, rest)) :
    rows.length + rest.length = feed.length := by
  induction feed generalizing rows rest with
  | done =>
    simp only [takeGroup, Except.ok.injEq, Prod.mk.injEq] at h
    obtain ⟨rfl, rfl⟩ := h
    simp
  | failed e => simp [takeGroup] at h
  | next row tail ih =>
    simp only [takeGroup] at h
    split at h
    · cases htail : takeGroup width key tail with
      | error e => simp [htail, Except.map] at h
      | ok p =>
        obtain ⟨rows', rest'⟩ := p
        simp only [htail, Except.map, Except.ok.injEq, Prod.mk.injEq] at h
        obtain ⟨rfl, rfl⟩ := h
        have := ih htail
        simp only [List.length_cons, Feed.length]
        omega
    · simp only [Except.ok.injEq, Prod.mk.injEq] at h
      obtain ⟨rfl, rfl⟩ := h
      simp

/-- A left row with the columns of a right row behind the key, and what both rows carry along. -/
def combine (keyLength : Nat) (left right : Row) : Row :=
  (left.extend (right.line.drop keyLength)).absorb right

/-- All pairs of a left and a right row, by left row first. -/
def pairs (keyLength : Nat) (lefts rights : List Row) : List Row :=
  lefts.flatMap fun l => rights.map (combine keyLength l)

/-- The pairs of rows with equal keys. -/
def equalsJoin (width : Option Nat) : RowFeed → RowFeed → RowFeed
  | .failed e, _ => .failed e
  | .done, .failed e => .failed e
  | .next _ _, .failed e => .failed e
  | .done, _ => .done
  | .next _ _, .done => .done
  | .next l ls, .next r rs =>
    let key := l.keyOf width
    match Row.compareLines key (r.keyOf width) with
    | .lt => equalsJoin width ls (.next r rs)
    | .gt => equalsJoin width (.next l ls) rs
    | .eq =>
      match _hl : takeGroup width key ls with
      | .error e => .failed e
      | .ok (lefts, ls') =>
        match _hr : takeGroup width key rs with
        | .error e => .failed e
        | .ok (rights, rs') =>
          Feed.prepend (pairs key.length (l :: lefts) (r :: rights)) (equalsJoin width ls' rs')
termination_by left right => left.length + right.length
decreasing_by
  · simp only [Feed.length]; omega
  · simp only [Feed.length]; omega
  · have hl' := length_of_takeGroup _hl
    have hr' := length_of_takeGroup _hr
    simp only [Feed.length]
    omega

/-- One row for every target that both feeds have: the first left row cut to its target, with
what it and all right rows carry along. -/
def innerJoin : RowFeed → RowFeed → RowFeed
  | .failed e, _ => .failed e
  | .done, .failed e => .failed e
  | .next _ _, .failed e => .failed e
  | .done, _ => .done
  | .next _ _, .done => .done
  | .next l ls, .next r rs =>
    match Term.compare l.target r.target with
    | .lt => innerJoin ls (.next r rs)
    | .gt => innerJoin (.next l ls) rs
    | .eq =>
      match _hl : takeGroup (some 1) [l.target] ls with
      | .error e => .failed e
      | .ok (_, ls') =>
        match _hr : takeGroup (some 1) [l.target] rs with
        | .error e => .failed e
        | .ok (rights, rs') =>
          .next ((r :: rights).foldl Row.absorb (l.trim 1)) (innerJoin ls' rs')
termination_by left right => left.length + right.length
decreasing_by
  · simp only [Feed.length]; omega
  · simp only [Feed.length]; omega
  · have hl' := length_of_takeGroup _hl
    have hr' := length_of_takeGroup _hr
    simp only [Feed.length]
    omega

/-- The feed behind the rows whose target is below the given one. -/
def skipBelow (target : Term) : RowFeed → RowFeed
  | .done => .done
  | .failed e => .failed e
  | .next row rest =>
    if (row.target.compare target).isLT then skipBelow target rest else .next row rest

/-- The left rows whose target is not among the right targets. -/
def antiJoin : RowFeed → RowFeed → RowFeed
  | .done, _ => .done
  | .failed e, _ => .failed e
  | .next l ls, right =>
    match skipBelow l.target right with
    | .failed e => .failed e
    | .done => .next l (antiJoin ls .done)
    | .next r rs =>
      if r.target = l.target then antiJoin ls (.next r rs)
      else .next l (antiJoin ls (.next r rs))

/-- The values of a target at the beginning of a feed, rows of smaller targets being passed over,
and the feed behind them. -/
def gather (target : Term) : RowFeed → Except OpError (List Term × RowFeed)
  | .done => .ok ([], .done)
  | .failed e => .error e
  | .next row rest =>
    if (row.target.compare target).isLT then gather target rest
    else if row.target = target then
      (gather target rest).map fun (values, r) => (row.value?.toList ++ values, r)
    else .ok ([], .next row rest)

/-- The targets on the left whose values on the right, taken together, pass a test. -/
def countValues (test : List Term → Bool) : RowFeed → RowFeed → RowFeed
  | .done, _ => .done
  | .failed e, _ => .failed e
  | .next t ts, values =>
    match gather t.target values with
    | .error e => .failed e
    | .ok (vs, values') =>
      if test vs then .next (t.trim 1) (countValues test ts values')
      else countValues test ts values'

end GraphShapes.RowFeed
