import GraphShapes.Cursor.Step

/-!
# How operators handle what their inputs bring

Operators with one input differ in what they make of a row. A failure of the input closes them, and
any other outcome they pass on (`Cursor.Step.handled`). An operator that looks at rows is busy after a
look, and is closed if the look fails (`Cursor.handleLook`). So what is true of the steps of all
cursors has to be shown once for each of these two, and then for the rows of every operator.
-/

namespace GraphShapes

namespace Cursor

/-- The step of an operator whose input makes a step, given what the operator makes of a row. -/
def Step.handled (op : Cursor → Cursor) (onRow : Row → Cursor → Pool → Step) : Step → Step
  | (.row r, c, pool) => onRow r c pool
  | (.failed e, c, pool) => (op c).failing e pool
  | (outcome, c, pool) => (outcome, op c, pool)

/-- The step of an operator that looks at rows of its inputs. -/
def handleLook {α : Type} (op : α → Cursor) : Option OpError × α × Pool → Step
  | (none, inputs, pool) => (.busy, op inputs, pool)
  | (some e, inputs, pool) => (op inputs).failing e pool

variable (access : Access) (input : Cursor) (pool : Pool)

theorem step_values (source : Source) (path : Option Path) :
    (values input source path []).step access pool =
      (input.step access pool).handled (values · source path []) fun target c pool =>
        match Path.rowsOf source path target with
        | .ok queue => (.busy, values c source path queue, pool)
        | .error e => (values c source path []).failing e (pool.record (.unreadable e)) := by
  rw [step]
  obtain ⟨outcome, c, pool'⟩ := input.step access pool
  cases outcome <;> rfl

theorem step_filter (keep : Row → Bool) : (filter input keep).step access pool =
    (input.step access pool).handled (filter · keep) fun r c pool =>
      (if keep r then .row r else .busy, filter c keep, pool) := by
  rw [step]
  obtain ⟨outcome, c, pool'⟩ := input.step access pool
  cases outcome <;> rfl

theorem step_mapped (change : Row → Row) : (mapped input change).step access pool =
    (input.step access pool).handled (mapped · change) fun r c pool =>
      (.row (change r), mapped c change, pool) := by
  rw [step]
  obtain ⟨outcome, c, pool'⟩ := input.step access pool
  cases outcome <;> rfl

theorem step_unique (width : Option Nat) (seen : List (List Term)) :
    (unique input width seen).step access pool =
      (input.step access pool).handled (unique · width seen) fun r c pool =>
        if r.keyOf width ∈ seen then (.busy, unique c width seen, pool)
        else (.row r, unique c width (r.keyOf width :: seen), pool) := by
  rw [step]
  obtain ⟨outcome, c, pool'⟩ := input.step access pool
  cases outcome with
  | row r =>
    by_cases hseen : r.keyOf width ∈ seen
    · simp [Step.handled, hseen]
    · simp [Step.handled, hseen]
  | _ => rfl

theorem step_union (inputs : List Lookahead) : (union inputs).step access pool =
    match Lookahead.lookFirst access inputs pool, Lookahead.takeLeast? inputs with
    | some look, _ => handleLook union look
    | none, some (r, inputs) => (.row r, union inputs, pool)
    | none, none => (.ended, union inputs, pool) := by
  rw [step]
  cases Lookahead.lookFirst access inputs pool with
  | none => cases Lookahead.takeLeast? inputs <;> rfl
  | some look =>
    obtain ⟨failure, inputs', pool'⟩ := look
    cases failure <;> rfl

theorem step_merge (how : Merge) (left right : Lookahead) (phase : Phase) :
    (merge how left right phase []).step access pool =
      match how.move phase left.head right.head with
      | .stop => (.ended, merge how left right phase [], pool)
      | .go delivered passLeft passRight phase =>
        (.busy, merge how (left.passIf passLeft) (right.passIf passRight) phase delivered, pool)
      | .lookLeft => handleLook (merge how · right phase []) (left.look access pool)
      | .lookRight => handleLook (merge how left · phase []) (right.look access pool) := by
  rw [step]
  cases how.move phase left.head right.head with
  | stop => rfl
  | go => rfl
  | lookLeft =>
    obtain ⟨failure, left', pool'⟩ := left.look access pool
    cases failure <;> rfl
  | lookRight =>
    obtain ⟨failure, right', pool'⟩ := right.look access pool
    cases failure <;> rfl

end Cursor

end GraphShapes
