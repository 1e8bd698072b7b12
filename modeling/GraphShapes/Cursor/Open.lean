import GraphShapes.Cursor.Close

/-!
# Opening plans

Opening a plan opens its inputs, from left to right. If one of them refuses, those that were
opened before it are closed, and the plan refuses. Only a sort leaves its input alone until its
first row is asked for.
-/

namespace GraphShapes

namespace Cursor

/-- What opening brings: a cursor, or a failure. -/
abbrev Opened := Except OpError Cursor × Pool

/-- An operator over a cursor that was opened. -/
def mapOpened (operator : Cursor → Cursor) : Opened → Opened
  | (.ok c, pool) => (.ok (operator c), pool)
  | (.error e, pool) => (.error e, pool)

/-- An operator over two cursors, the second of which is opened after the first. -/
def bothOpened (operator : Cursor → Cursor → Cursor) (left : Opened) (openRight : Pool → Opened) :
    Opened :=
  match left with
  | (.error e, pool) => (.error e, pool)
  | (.ok l, pool) =>
    match openRight pool with
    | (.error e, pool) => (.error e, (l.close pool).2)
    | (.ok r, pool) => (.ok (operator l r), pool)

/-- A merge of two cursors at its beginning. -/
def merging (how : Merge) (left right : Cursor) : Cursor :=
  .merge how (.fresh left) (.fresh right) .comparing []

end Cursor

namespace Probe

/-- Opens a producer outside the library. -/
def opened (p : Probe) (pool : Pool) : Cursor.Opened :=
  match p.refusal with
  | some e => (.error e, pool.record (.refused p.name e))
  | none => (.ok (.probe p 0 false), pool.record (.opened p.name))

end Probe

namespace Plan

mutual

def opened (access : Access) : Plan → Pool → Cursor.Opened
  | empty _, pool => (.ok (.rows []), pool)
  | values rows _, pool => (.ok (.rows rows), pool)
  | probe p, pool => p.opened pool
  | targetScan scan, pool => (.ok (.scan scan), pool)
  | reader s _, pool =>
    match access.start s pool with
    | (.ok (), pool) => (.ok (.reader s 0 false), pool)
    | (.error e, pool) => (.error e, pool)
  | valuesOf targets source path, pool =>
    Cursor.mapOpened (fun c => .values c source path []) (targets.opened access pool)
  | countValues targets vs _ test, pool =>
    Cursor.bothOpened (Cursor.merging (.count test)) (targets.opened access pool)
      fun pool => vs.opened access pool
  | filter input _ keep, pool =>
    Cursor.mapOpened (fun c => .filter c keep) (input.opened access pool)
  | trim input width, pool =>
    Cursor.mapOpened (fun c => .mapped c (Row.trim width)) (input.opened access pool)
  | sort input, pool => (.ok (.unsorted input), pool)
  | unique input width, pool =>
    Cursor.mapOpened (fun c => .unique c width []) (input.opened access pool)
  | union inputs, pool =>
    match openedAll access inputs [] pool with
    | (.ok cursors, pool) => (.ok (.union (cursors.map Lookahead.fresh)), pool)
    | (.error e, pool) => (.error e, pool)
  | tag input shape, pool =>
    Cursor.mapOpened (fun c => .mapped c (Row.tag shape)) (input.opened access pool)
  | relabel input _, pool => input.opened access pool
  | equalsJoin left right allColumns, pool =>
    Cursor.bothOpened (Cursor.merging (.equals (joinWidth allColumns))) (left.opened access pool)
      fun pool => right.opened access pool
  | innerJoin left right, pool =>
    Cursor.bothOpened (Cursor.merging .inner) (left.opened access pool)
      fun pool => right.opened access pool
  | antiJoin left right, pool =>
    Cursor.bothOpened (Cursor.merging .anti) (left.opened access pool)
      fun pool => right.opened access pool

/-- Opens plans one after the other; `before` are the cursors of the plans in front of them, the
last one first. -/
def openedAll (access : Access) :
    List Plan → List Cursor → Pool → Except OpError (List Cursor) × Pool
  | [], before, pool => (.ok before.reverse, pool)
  | p :: rest, before, pool =>
    match p.opened access pool with
    | (.ok c, pool) => openedAll access rest (c :: before) pool
    | (.error e, pool) => (.error e, Cursor.closeEach before.reverse pool)

end

end Plan

end GraphShapes
