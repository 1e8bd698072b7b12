import GraphShapes.Proofs.Cursor.Balance
import GraphShapes.Proofs.Cursor.Probe

/-!
# Cursors that have finished

A cursor that has once answered that there are no more rows, or has failed, or was closed, is done
with: it answers every later question with nothing and leaves the pool as it is
(`Pool.next_after_end`). Operators see to that by closing themselves when something fails below
them. A producer outside the library that breaks off and has no operator above it would be asked
again, hence `Plan.Covered`.

What an operator has in hand when it is done differs from one to the next (`Cursor.Finished`). An
operator with two inputs or more does not ask them again; one with a single input does, and there
the same must hold of the input.
-/

namespace GraphShapes

/-! ## The states of cursors -/

/-- No producer outside the library that may break off is read directly or under another layout. -/
def Plan.Covered : Plan → Prop
  | .probe p => p.breakOff = none
  | .relabel input _ => input.Covered
  | _ => True

/-- Below the operator there is no producer outside the library that may break off, or the operator
closes it. -/
def Cursor.Covered : Cursor → Prop
  | .probe p _ _ => p.breakOff = none
  | .ahead (.mk inner _) => inner.Covered
  | _ => True

/-- Nobody has seen the end of the input that is asked for one row after the other. -/
def Cursor.Pending : Cursor → Prop
  | .values targets _ _ _ => targets.Pending
  | .filter input _ => input.Pending
  | .mapped input _ => input.Pending
  | .unique input _ _ => input.Pending
  | .ahead (.mk inner head) => head ≠ .ended ∧ inner.Pending
  | _ => True

/-- There is nothing in hand, and nothing to come as long as the splitters stay as they are. -/
def Cursor.Finished (access : Access) (pool : Pool) : Cursor → Prop
  | .rows rest => rest = []
  | .probe p served closed => closed = false → p.feedFrom served = .done
  | .scan _ => False
  | .reader s position closed => closed = false → access.read s position pool = (.ended, pool)
  | .values targets _ _ queue => queue = [] ∧ targets.Finished access pool
  | .filter input _ => input.Finished access pool
  | .mapped input _ => input.Finished access pool
  | .unique input _ _ => input.Finished access pool
  | .unsorted _ => False
  | .sorting _ _ => False
  | .union inputs => ∀ l ∈ inputs, l.head = .ended
  | .merge how left right phase queue => queue = [] ∧ how.move phase left.head right.head = .stop
  | .ahead (.mk inner head) => head.row? = none ∧ inner.Finished access pool

namespace Lookahead

/-- There is nothing to look at where the end of all inputs is in view. -/
theorem lookFirst_of_ended (access : Access) (pool : Pool) : ∀ {ls : List Lookahead},
    (∀ l ∈ ls, l.head = .ended) → lookFirst access ls pool = none
  | [], _ => rfl
  | .mk inner head :: rest, h => by
    have hhead : head = .ended := h _ List.mem_cons_self
    have hseen : head ≠ .unknown := by
      rw [hhead]
      exact Head.noConfusion
    rw [lookFirst_of_seen access inner hseen,
      lookFirst_of_ended access pool fun l hl => h l (List.mem_cons_of_mem _ hl)]
    rfl

/-- A union whose inputs have ended has no row to take. -/
theorem takeLeast?_of_ended : ∀ {ls : List Lookahead},
    (∀ l ∈ ls, l.head = .ended) → takeLeast? ls = none
  | [], _ => rfl
  | l :: rest, h => by
    rw [takeLeast?, h l List.mem_cons_self,
      takeLeast?_of_ended fun l hl => h l (List.mem_cons_of_mem _ hl)]
    rfl

/-- Where there is nothing to look at and no row in view, the end of all inputs is. -/
theorem ended_of_nothing {access : Access} {pool : Pool} : ∀ {ls : List Lookahead},
    lookFirst access ls pool = none → takeLeast? ls = none → ∀ l ∈ ls, l.head = .ended
  | [], _, _ => nofun
  | .mk inner .unknown :: _, hlook, _ => by
    -- A head that nobody has seen would have been looked at.
    rw [lookFirst] at hlook
    cases hlook
  | .mk inner (.row r) :: rest, _, hleast => by
    rw [takeLeast?] at hleast
    simp only [head] at hleast
    cases hrest : takeLeast? rest with
    | none =>
      rw [hrest] at hleast
      cases hleast
    | some taken =>
      rw [hrest] at hleast
      simp only at hleast
      split at hleast <;> cases hleast
  | .mk inner .ended :: rest, hlook, hleast => by
    rw [lookFirst_of_seen access inner Head.noConfusion, Option.map_eq_none_iff] at hlook
    rw [takeLeast?] at hleast
    have hleast : takeLeast? rest = none := by
      simpa only [head, Option.map_eq_none_iff] using hleast
    intro l hl
    rcases List.mem_cons.1 hl with rfl | hl
    · rfl
    · exact ended_of_nothing hlook hleast l hl

/-- Closed inputs have ended. -/
theorem head_closeAll : ∀ (ls : List Lookahead) (pool : Pool), ∀ l ∈ (closeAll ls pool).1,
    l.head = .ended
  | .mk inner _ :: rest, pool, l, hl => by
    rcases List.mem_cons.1 hl with rfl | hl
    · rfl
    · exact head_closeAll rest _ l hl

end Lookahead

/-- With the end of both inputs in view and nothing collected, operators with two inputs stop. -/
theorem Merge.move_ended (how : Merge) : how.move .comparing .ended .ended = .stop := by
  cases how <;> rfl

variable {access : Access} {pool : Pool}

/-- A closed cursor has finished. -/
theorem Cursor.close_finished (access : Access) (later : Pool) :
    ∀ (c : Cursor) (pool : Pool), (c.close pool).1.Finished access later
  | .rows _, _ => rfl
  | .probe _ _ true, _ => nofun
  | .probe _ _ false, _ => nofun
  | .scan _, _ => rfl
  | .reader .., _ => nofun
  | .values targets _ _ _, pool => ⟨rfl, targets.close_finished access later pool⟩
  | .filter input _, pool => input.close_finished access later pool
  | .mapped input _, pool => input.close_finished access later pool
  | .unique input _ _, pool => input.close_finished access later pool
  | .unsorted _, _ => rfl
  | .sorting _ _, _ => rfl
  | .union inputs, pool => Lookahead.head_closeAll inputs pool
  | .merge how (.mk _ _) (.mk _ _) _ _, _ => ⟨rfl, how.move_ended⟩
  | .ahead (.mk inner _), pool => ⟨rfl, inner.close_finished access later pool⟩

/-- A cursor that has finished brings nothing, leaves the pool as it is, and has finished. -/
theorem Cursor.Finished.step : ∀ {c : Cursor}, c.Finished access pool →
    ∃ c', c.step access pool = (.ended, c', pool) ∧ c'.Finished access pool
  | .rows _, h => by
    obtain rfl := h
    exact ⟨.rows [], rfl, rfl⟩
  | .probe p served true, h => ⟨.probe p served true, rfl, h⟩
  | .probe p served false, h => by
    have hstep := p.step_eq served pool
    rw [h rfl] at hstep
    exact ⟨.probe p served false, hstep, h⟩
  | .reader s position true, h => ⟨.reader s position true, rfl, h⟩
  | .reader s position false, h => by
    refine ⟨.reader s position false, ?_, h⟩
    rw [Cursor.step, h rfl]
  | .values targets source path _, ⟨hqueue, h⟩ => by
    obtain rfl := hqueue
    obtain ⟨targets', hstep, hfinished⟩ := h.step
    refine ⟨.values targets' source path [], ?_, rfl, hfinished⟩
    rw [Cursor.step, hstep]
  | .filter input keep, h => by
    have h : input.Finished access pool := h
    obtain ⟨input', hstep, hfinished⟩ := h.step
    refine ⟨.filter input' keep, ?_, hfinished⟩
    rw [Cursor.step, hstep]
  | .mapped input change, h => by
    have h : input.Finished access pool := h
    obtain ⟨input', hstep, hfinished⟩ := h.step
    refine ⟨.mapped input' change, ?_, hfinished⟩
    rw [Cursor.step, hstep]
  | .unique input width seen, h => by
    have h : input.Finished access pool := h
    obtain ⟨input', hstep, hfinished⟩ := h.step
    refine ⟨.unique input' width seen, ?_, hfinished⟩
    rw [Cursor.step, hstep]
  | .union inputs, h => by
    refine ⟨.union inputs, ?_, h⟩
    rw [Cursor.step, Lookahead.lookFirst_of_ended access pool h, Lookahead.takeLeast?_of_ended h]
  | .merge how left right phase _, ⟨hqueue, hmove⟩ => by
    obtain rfl := hqueue
    refine ⟨.merge how left right phase [], ?_, rfl, hmove⟩
    rw [Cursor.step, hmove]
  | .ahead (.mk inner .ended), ⟨_, h⟩ => ⟨.ahead (.mk inner .unknown), rfl, rfl, h⟩
  | .ahead (.mk inner .unknown), ⟨_, h⟩ => by
    obtain ⟨inner', hstep, hfinished⟩ := h.step
    refine ⟨.ahead (.mk inner' .unknown), ?_, rfl, hfinished⟩
    rw [Cursor.step, hstep]

/-! ## Steps -/

/-- A splitter whose rows have all been read brings nothing more. -/
def Access.Final (access : Access) : Prop :=
  ∀ (s : SplitterId) (position : Nat) (pool : Pool), pool.Layered →
    (access.read s position pool).1 = .ended →
      access.read s position (access.read s position pool).2 =
        (.ended, (access.read s position pool).2)

/-- What a step brings is final if it is the end or a failure. -/
def Cursor.Step.Final (access : Access) (c : Cursor) : Cursor.Step → Prop
  | (.ended, c', pool') => c'.Finished access pool'
  | (.failed _, c', pool') => c.Covered → c'.Finished access pool'
  | (_, c', _) => c'.Pending ∧ (c.Covered → c'.Covered)

/-- An operator that fails has finished. -/
theorem Cursor.failing_final (access : Access) (e : OpError) (c d : Cursor) (pool : Pool) :
    (c.failing e pool).Final access d := fun _ => c.close_finished access _ pool

/-- A producer answers its end forever, but not its failure. -/
theorem Probe.step_final (access : Access) (p : Probe) (served : Nat) (pool : Pool) :
    (p.step served pool).Final access (.probe p served false) := by
  have hstep := p.step_eq served pool
  cases hfeed : p.feedFrom served with
  | done =>
    rw [hfeed] at hstep
    rw [hstep]
    exact fun _ => hfeed
  | failed e =>
    rw [hfeed] at hstep
    rw [hstep]
    -- a producer that fails breaks off by itself, and then nothing is promised
    intro hcovered
    have hcovered : p.breakOff = none := hcovered
    unfold Probe.feedFrom at hfeed
    rw [hcovered] at hfeed
    cases hrows : p.rows.drop served with
    | nil =>
      rw [hrows] at hfeed
      cases hfeed
    | cons r rest =>
      rw [hrows] at hfeed
      cases hfeed
  | next r rest =>
    rw [hfeed] at hstep
    rw [hstep.2]
    exact ⟨trivial, id⟩

/-- A scan is read at once, and then holds the rows. -/
theorem TargetScan.step_final (access : Access) (scan : TargetScan) (pool : Pool) :
    (scan.step pool).Final access (.scan scan) := by
  unfold TargetScan.step
  cases scan.select with
  | error e => exact fun _ => rfl
  | ok terms => exact ⟨trivial, fun _ => trivial⟩

/-- A reader of an ended splitter gets nothing more from it. -/
theorem Cursor.reader_final (haccess : access.Final) (s : SplitterId) (position : Nat)
    (hlayered : pool.Layered) : ((Cursor.reader s position false).step access pool).Final access
      (.reader s position false) := by
  have hread := haccess s position pool hlayered
  rw [Cursor.step]
  generalize access.read s position pool = read at hread ⊢
  obtain ⟨outcome, pool'⟩ := read
  cases outcome with
  | row r => exact ⟨trivial, fun _ => trivial⟩
  | busy => exact ⟨trivial, fun _ => trivial⟩
  | ended => exact fun _ => hread rfl
  | failed e => exact fun _ hended => by cases hended

namespace Cursor

variable {input : Cursor}

/-- An operator with one input comes to its end with its input. -/
theorem Step.Final.handled {step : Step} (h : step.Final access input) {op : Cursor → Cursor}
    {onRow : Row → Cursor → Pool → Step}
    (hfinished : ∀ c pool, c.Finished access pool → (op c).Finished access pool)
    (hpending : ∀ c, c.Pending → (op c).Pending) (hcovered : ∀ c, (op c).Covered)
    (hrow : ∀ r c pool, c.Pending → (onRow r c pool).Final access (op input)) :
    (step.handled op onRow).Final access (op input) := by
  obtain ⟨outcome, c, pool'⟩ := step
  cases outcome with
  | row r => exact hrow r c pool' h.1
  | failed e => exact failing_final access e _ _ _
  | ended => exact hfinished c pool' h
  | busy => exact ⟨hpending c h.1, fun _ => hcovered c⟩

/-- A look brings no end. -/
theorem handleLook_final (access : Access) {α : Type} (op : α → Cursor) {c : Cursor}
    (hpending : ∀ a, (op a).Pending) (hcovered : ∀ a, (op a).Covered)
    (look : Option OpError × α × Pool) : (handleLook op look).Final access c := by
  obtain ⟨failure, inputs, pool'⟩ := look
  cases failure with
  | none => exact ⟨hpending inputs, fun _ => hcovered inputs⟩
  | some e => exact failing_final access e _ _ _

/-- Looking up values ends with its input, and closes it when the source fails. -/
theorem values_final (source : Source) (path : Option Path)
    (h : (input.step access pool).Final access input) :
    ((values input source path []).step access pool).Final access
      (values input source path []) := by
  rw [step_values]
  refine h.handled (fun _ _ h => ⟨rfl, h⟩) (fun _ h => h) (fun _ => trivial) ?_
  intro target c pool' hpending
  cases Path.rowsOf source path target with
  | ok queue => exact ⟨hpending, fun _ => trivial⟩
  | error e => exact failing_final access e _ _ _

/-- Filtering ends with its input. -/
theorem filter_final (keep : Row → Bool) (h : (input.step access pool).Final access input) :
    ((filter input keep).step access pool).Final access (filter input keep) := by
  rw [step_filter]
  refine h.handled (fun _ _ h => h) (fun _ h => h) (fun _ => trivial) ?_
  intro r c pool' hpending
  cases keep r <;> exact ⟨hpending, fun _ => trivial⟩

/-- Changing rows ends with its input. -/
theorem mapped_final (change : Row → Row) (h : (input.step access pool).Final access input) :
    ((mapped input change).step access pool).Final access (mapped input change) := by
  rw [step_mapped]
  exact h.handled (fun _ _ h => h) (fun _ h => h) (fun _ => trivial)
    fun _ _ _ hpending => ⟨hpending, fun _ => trivial⟩

/-- Dropping repetitions ends with its input. -/
theorem unique_final (width : Option Nat) (seen : List (List Term))
    (h : (input.step access pool).Final access input) :
    ((unique input width seen).step access pool).Final access (unique input width seen) := by
  rw [step_unique]
  refine h.handled (fun _ _ h => h) (fun _ h => h) (fun _ => trivial) ?_
  intro r c pool' hpending
  split <;> exact ⟨hpending, fun _ => trivial⟩

/-- Sorting that has only opened its input is not at an end. -/
theorem unsorted_final (access : Access) (plan : Plan) (pool : Pool) :
    ((unsorted plan).step access pool).Final access (unsorted plan) := by
  rw [step]
  obtain ⟨result, pool'⟩ := plan.opened access pool
  cases result with
  | ok input => exact ⟨trivial, fun _ => trivial⟩
  | error e => exact fun _ => rfl

/-- The end of its input is not the end of a sort, which delivers the rows after it. -/
theorem sorting_final (access : Access) (input : Cursor) (arrived : List Row) (pool : Pool) :
    ((sorting input arrived).step access pool).Final access (sorting input arrived) := by
  rw [step]
  obtain ⟨outcome, input', pool'⟩ := input.step access pool
  cases outcome with
  | failed e => exact failing_final access e _ _ _
  | row r => exact ⟨trivial, fun _ => trivial⟩
  | ended => exact ⟨trivial, fun _ => trivial⟩
  | busy => exact ⟨trivial, fun _ => trivial⟩

/-- A union ends where the end of all inputs is in view. -/
theorem union_final (access : Access) (inputs : List Lookahead) (pool : Pool) :
    ((union inputs).step access pool).Final access (union inputs) := by
  rw [step_union]
  cases hlook : Lookahead.lookFirst access inputs pool with
  | some look => exact handleLook_final access union (fun _ => trivial) (fun _ => trivial) look
  | none =>
    cases hleast : Lookahead.takeLeast? inputs with
    | none => exact Lookahead.ended_of_nothing hlook hleast
    | some taken => exact ⟨trivial, fun _ => trivial⟩

/-- A merge ends where its move says so, and says so again. -/
theorem merge_final (access : Access) (how : Merge) (left right : Lookahead) (phase : Phase)
    (pool : Pool) : ((merge how left right phase []).step access pool).Final access
      (merge how left right phase []) := by
  rw [step_merge]
  cases hmove : how.move phase left.head right.head with
  | stop => exact ⟨rfl, hmove⟩
  | go delivered passLeft passRight phase' => exact ⟨trivial, fun _ => trivial⟩
  | lookLeft =>
    exact handleLook_final access (merge how · right phase []) (fun _ => trivial)
      (fun _ => trivial) _
  | lookRight =>
    exact handleLook_final access (merge how left · phase []) (fun _ => trivial)
      (fun _ => trivial) _

/-- A cursor that was looked at ends with the row that was seen. -/
theorem ahead_final (h : (input.step access pool).Final access input) :
    ((ahead (.mk input .unknown)).step access pool).Final access (ahead (.mk input .unknown)) := by
  rw [step]
  generalize input.step access pool = step at h ⊢
  obtain ⟨outcome, input', pool'⟩ := step
  cases outcome with
  | row r => exact ⟨⟨Head.noConfusion, h.1⟩, h.2⟩
  | failed e => exact fun hcovered => ⟨rfl, h hcovered⟩
  | ended => exact ⟨rfl, h⟩
  | busy => exact ⟨⟨Head.noConfusion, h.1⟩, h.2⟩

/-- A step of any cursor leaves it as `Finished` says, by recursion over the cursor. -/
theorem step_final (haccess : access.Final) : ∀ (c : Cursor) {pool : Pool}, pool.Layered →
    c.Pending → (c.step access pool).Final access c
  | .rows [], _, _, _ => rfl
  | .rows (_ :: _), _, _, _ => ⟨trivial, fun _ => trivial⟩
  | .probe _ _ true, _, _, _ => nofun
  | .probe p served false, pool, _, _ => p.step_final access served pool
  | .scan s, pool, _, _ => s.step_final access pool
  | .reader _ _ true, _, _, _ => nofun
  | .reader s position false, _, hlayered, _ => reader_final haccess s position hlayered
  | .values _ _ _ (_ :: _), _, _, hpending => ⟨hpending, fun _ => trivial⟩
  | .values targets source path [], _, hlayered, hpending =>
    values_final source path (targets.step_final haccess hlayered hpending)
  | .filter input keep, _, hlayered, hpending =>
    filter_final keep (input.step_final haccess hlayered hpending)
  | .mapped input change, _, hlayered, hpending =>
    mapped_final change (input.step_final haccess hlayered hpending)
  | .unique input width seen, _, hlayered, hpending =>
    unique_final width seen (input.step_final haccess hlayered hpending)
  | .unsorted plan, pool, _, _ => unsorted_final access plan pool
  | .sorting input arrived, pool, _, _ => sorting_final access input arrived pool
  | .union inputs, pool, _, _ => union_final access inputs pool
  | .merge _ _ _ _ (_ :: _), _, _, _ => ⟨trivial, fun _ => trivial⟩
  | .merge how left right phase [], pool, _, _ => merge_final access how left right phase pool
  | .ahead (.mk _ (.row _)), _, _, hpending => ⟨⟨Head.noConfusion, hpending.2⟩, id⟩
  | .ahead (.mk _ .ended), _, _, hpending => absurd rfl hpending.1
  | .ahead (.mk inner .unknown), _, hlayered, hpending =>
    ahead_final (inner.step_final haccess hlayered hpending.2)

end Cursor

/-! ## Opening -/

/-- An opening of a plan brings a cursor of which nobody has seen the end. -/
def Cursor.Opened.Final (plan : Plan) : Cursor.Opened → Prop
  | (.ok c, _) => c.Pending ∧ (plan.Covered → c.Covered)
  | (.error _, _) => True

/-- An operator over one input is opened with its input. -/
theorem Cursor.Opened.Final.map {plan input : Plan} {opened : Cursor.Opened}
    (h : opened.Final input) (operator : Cursor → Cursor)
    (hpending : ∀ c, c.Pending → (operator c).Pending) (hcovered : ∀ c, (operator c).Covered) :
    (Cursor.mapOpened operator opened).Final plan := by
  obtain ⟨result, pool'⟩ := opened
  cases result with
  | error e => trivial
  | ok c => exact ⟨hpending c h.1, fun _ => hcovered c⟩

/-- An operator with two inputs is opened with both. -/
theorem Cursor.Opened.final_merging (plan : Plan) (how : Merge) (left : Cursor.Opened)
    (openRight : Pool → Cursor.Opened) :
    (Cursor.bothOpened (Cursor.merging how) left openRight).Final plan := by
  obtain ⟨result, pool'⟩ := left
  cases result with
  | error e => trivial
  | ok l =>
    simp only [Cursor.bothOpened]
    generalize openRight pool' = right
    obtain ⟨result, pool''⟩ := right
    cases result with
    | error e => trivial
    | ok r => exact ⟨trivial, fun _ => trivial⟩

/-- Opening any plan gives a cursor that has not finished, by recursion over the plan. -/
theorem Plan.opened_final (access : Access) (pool : Pool) :
    ∀ plan : Plan, (plan.opened access pool).Final plan
  | .empty _ => ⟨trivial, fun _ => trivial⟩
  | .values _ _ => ⟨trivial, fun _ => trivial⟩
  | .targetScan _ => ⟨trivial, fun _ => trivial⟩
  | .sort _ => ⟨trivial, fun _ => trivial⟩
  | .countValues .. => Cursor.Opened.final_merging _ _ _ _
  | .equalsJoin .. => Cursor.Opened.final_merging _ _ _ _
  | .innerJoin .. => Cursor.Opened.final_merging _ _ _ _
  | .antiJoin .. => Cursor.Opened.final_merging _ _ _ _
  | .valuesOf targets _ _ =>
    (targets.opened_final access pool).map _ (fun _ h => h) fun _ => trivial
  | .filter input _ _ => (input.opened_final access pool).map _ (fun _ h => h) fun _ => trivial
  | .trim input _ => (input.opened_final access pool).map _ (fun _ h => h) fun _ => trivial
  | .unique input _ => (input.opened_final access pool).map _ (fun _ h => h) fun _ => trivial
  | .tag input _ => (input.opened_final access pool).map _ (fun _ h => h) fun _ => trivial
  | .relabel input _ => by
    have h := input.opened_final access pool
    rw [Plan.opened]
    generalize input.opened access pool = opened at h ⊢
    obtain ⟨result, pool'⟩ := opened
    cases result with
    | ok c => exact h
    | error e => trivial
  | .probe p => by
    rw [Plan.opened, Probe.opened]
    cases p.refusal with
    | none => exact ⟨trivial, id⟩
    | some e => trivial
  | .reader s _ => by
    rw [Plan.opened]
    generalize access.start s pool = started
    obtain ⟨result, pool'⟩ := started
    cases result with
    | ok _ => exact ⟨trivial, fun _ => trivial⟩
    | error e => trivial
  | .union inputs => by
    rw [Plan.opened]
    generalize Plan.openedAll access inputs [] pool = opened
    obtain ⟨result, pool'⟩ := opened
    cases result with
    | ok cursors => exact ⟨trivial, fun _ => trivial⟩
    | error e => trivial

/-! ## Reading splitters -/

namespace Pool

section Below

variable {name : String} {s : SplitterId} {below : Access}
  (hbelow : below.Balances name fun t => t < s)
include hbelow

/-- A supply that comes to its end is given up by its splitter. -/
theorem pull_ended (hlayered : pool.Layered) {splitter : Splitter}
    (hentry : pool.splitters[s]? = some splitter) {c : Cursor}
    (hsupply : splitter.supply = .opened c) (hended : (pull below s c pool).1 = .ended) :
    (pull below s c pool).2.splitters[s]? = some (splitter.withSupply .ended) := by
  have h := c.step_accounts hbelow (hlayered.supply hentry hsupply) hlayered
  unfold pull at hended ⊢
  generalize c.step below pool = step at h hended ⊢
  obtain ⟨outcome, c', pool'⟩ := step
  cases outcome with
  | row r => cases hended
  | busy => cases hended
  | failed e => cases hended
  | ended =>
    show ((c'.close pool').2.setSupply s .ended).splitters[s]? = _
    rw [getElem?_setSupply, if_pos rfl, (c'.close_closes pool').splitters, h.balances.entry, hentry]
    rfl

/-- A splitter that has answered its end answers it again and stays as it is. -/
theorem read_final (hlayered : pool.Layered) (position : Nat)
    (hended : (read below s position pool).1 = .ended) :
    read below s position (read below s position pool).2 =
      (.ended, (read below s position pool).2) := by
  cases hentry : pool.splitters[s]? with
  | none =>
    have hread : read below s position pool = (.ended, pool) := by rw [read, hentry]
    rw [hread, hread]
  | some splitter =>
    -- a row that is kept would have been the answer
    cases hkept : splitter.cache[position]? with
    | some r =>
      rw [read_kept below hentry hkept] at hended
      cases hended
    | none =>
      have hread := read_behind below hentry hkept
      cases hsupply : splitter.supply with
      | failed e =>
        rw [hread, hsupply] at hended
        cases hended
      | ended =>
        rw [hsupply] at hread
        rw [hread, hread]
      | waiting plan =>
        rw [hsupply] at hread
        rw [hread, hread]
      | opened c =>
        rw [hsupply] at hread
        rw [hread] at hended ⊢
        have hentry' : (pull below s c pool).2.splitters[s]? = some (splitter.withSupply .ended) :=
          pull_ended hbelow hlayered hentry hsupply hended
        exact read_behind below hentry' hkept

end Below

/-- So do all splitters, however deep they are nested. -/
theorem access_final : ∀ depth : Nat, (Pool.access depth).Final
  | 0 => fun _ _ _ _ _ => rfl
  | depth + 1 => fun _ position _ hlayered hended =>
    -- The accounts are those of any name: what counts is that the splitter is left alone.
    read_final (access_balances "" depth fun _ _ ht hut => Nat.lt_trans hut ht) hlayered position
      hended

end Pool

/-! ## Calls -/

namespace Cursor

/-- What can be done with a cursor. -/
inductive Call where
  | next
  | close

/-- What a call answers, the cursor after it, and the pool after it. Closing answers nothing. -/
def Call.answer : Call → Cursor → Pool → Answer
  | next, c, pool => c.next pool
  | close, c, pool => (.ok none, c.close pool)

/-- The cursor and the pool after calls, the first of which comes first. -/
def after : List Call → Cursor → Pool → Cursor × Pool
  | [], c, pool => (c, pool)
  | call :: calls, c, pool => after calls (call.answer c pool).2.1 (call.answer c pool).2.2

/-- Calls one after the other. -/
theorem after_append : ∀ (calls calls' : List Call) (c : Cursor) (pool : Pool),
    after (calls ++ calls') c pool = after calls' (after calls c pool).1 (after calls c pool).2
  | [], _, _, _ => rfl
  | call :: calls, calls', c, pool =>
    after_append calls calls' (call.answer c pool).2.1 (call.answer c pool).2.2

/-- A cursor from which more may come. -/
structure Live (c : Cursor) (pool : Pool) : Prop where
  layered : pool.Layered
  pending : c.Pending
  covered : c.Covered

/-- A cursor that has finished as far as its pool is concerned. -/
def Done (c : Cursor) (pool : Pool) : Prop :=
  c.Finished (Pool.access pool.splitters.size) pool

/-- As long as rows come, more may come. Any other answer is final. -/
def Answer.Final : Answer → Prop
  | (.ok (some _), c, pool) => c.Live pool
  | (_, c, pool) => c.Done pool

/-- Asking for a row takes as many steps as it needs, and the last one decides. -/
theorem nextWithin_final {depth : Nat} : ∀ (fuel : Nat) {c : Cursor} {pool : Pool},
    pool.splitters.size = depth → c.Live pool →
      (nextWithin (Pool.access depth) fuel c pool).Final
  | 0, c, pool, _, _ => c.close_finished _ _ pool
  | fuel + 1, c, pool, hsize, h => by
    have haccess : (Pool.access depth).Balances "" fun _ => True :=
      Pool.access_balances "" depth fun _ _ _ _ => trivial
    have huses := (c.step_accounts haccess (fun _ _ => trivial) h.layered).balances
    have hstep := c.step_final (Pool.access_final depth) h.layered h.pending
    unfold nextWithin
    generalize c.step (Pool.access depth) pool = step at huses hstep ⊢
    obtain ⟨outcome, c', pool'⟩ := step
    have hsize' : pool'.splitters.size = depth := huses.size.trans hsize
    -- the last step is judged with the access that the next request will have
    have hdone : c'.Finished (Pool.access depth) pool' → c'.Done pool' := by
      intro hfinished
      rw [Done, hsize']
      exact hfinished
    cases outcome with
    | row r => exact ⟨huses.layered, hstep.1, hstep.2 h.covered⟩
    | ended => exact hdone hstep
    | failed e => exact hdone (hstep h.covered)
    | busy => exact nextWithin_final fuel hsize' ⟨huses.layered, hstep.1, hstep.2 h.covered⟩

/-- Whatever is called, an end or a failure is final. -/
theorem Live.answer {c : Cursor} {pool : Pool} (h : c.Live pool) :
    ∀ call : Call, (call.answer c pool).Final
  | .next => nextWithin_final _ rfl h
  | .close => c.close_finished _ _ pool

/-- A cursor that is done answers with nothing and changes nothing. -/
theorem Done.next {c : Cursor} {pool : Pool} (h : c.Done pool) :
    ∃ c', c.next pool = (.ok none, c', pool) ∧ c'.Done pool := by
  obtain ⟨c', hstep, hfinished⟩ := h.step
  refine ⟨c', ?_, hfinished⟩
  rw [Cursor.next, nextWithin, hstep]

/-- No call brings back what has finished, and all that can happen is that producers are closed. -/
theorem Done.after : ∀ (calls : List Call) {c : Cursor} {pool : Pool}, c.Done pool →
    (after calls c pool).1.Done (after calls c pool).2 ∧ pool.Closes (after calls c pool).2
  | [], _, pool, h => ⟨h, .refl pool⟩
  | .next :: calls, c, pool, h => by
    obtain ⟨c', hnext, hdone⟩ := h.next
    have hafter : Cursor.after (.next :: calls) c pool = Cursor.after calls c' pool := by
      show Cursor.after calls (c.next pool).2.1 (c.next pool).2.2 = _
      rw [hnext]
    rw [hafter]
    exact hdone.after calls
  | .close :: calls, c, pool, _ => by
    have hdone : (c.close pool).1.Done (c.close pool).2 := c.close_finished _ _ pool
    obtain ⟨hlater, hcloses⟩ := hdone.after calls
    exact ⟨hlater, (c.close_closes pool).trans hcloses⟩

/-- After calls, more may come from a cursor, or it is done. -/
theorem Live.after : ∀ (calls : List Call) {c : Cursor} {pool : Pool}, c.Live pool →
    (after calls c pool).1.Live (after calls c pool).2 ∨
      (after calls c pool).1.Done (after calls c pool).2
  | [], _, _, h => .inl h
  | call :: calls, c, pool, h => by
    have hfinal := h.answer call
    rw [Cursor.after]
    generalize call.answer c pool = answer at hfinal ⊢
    obtain ⟨result, c', pool'⟩ := answer
    rcases result with e | (_ | r)
    · exact .inr (Done.after calls hfinal).1
    · exact .inr (Done.after calls hfinal).1
    · exact Live.after calls hfinal

end Cursor

namespace Pool

open Cursor (Call)

/-- A plan that could be opened is live. -/
theorem openPlan_live {pool opened : Pool} {plan : Plan} {c : Cursor} (hlayered : pool.Layered)
    (hcovered : plan.Covered) (hopen : pool.openPlan plan = (.ok c, opened)) : c.Live opened := by
  have haccess : (access pool.splitters.size).Balances "" fun _ => True :=
    access_balances "" _ fun _ _ _ _ => trivial
  have haccounts : (pool.openPlan plan).Accounts "" (fun _ => True) (pool.prepare plan) :=
    plan.opened_accounts haccess (fun _ _ => trivial) hlayered
  have hfinal : (pool.openPlan plan).Final plan := plan.opened_final _ _
  rw [hopen] at haccounts hfinal
  exact ⟨haccounts.balances.layered, hfinal.1, hfinal.2 hcovered⟩

/-- The cursor of a plan, or a lookahead over it, is called in any order. After a call that did not
bring a row, whatever is called next, no row comes any more, the pool stays as it is when it is asked
for one, and nothing has happened to it since then but that producers were closed. -/
theorem next_after_end {pool opened : Pool} {plan : Plan} {inner c : Cursor}
    (hlayered : pool.Layered) (hcovered : plan.Covered)
    (hopen : pool.openPlan plan = (.ok inner, opened)) (hc : c = inner ∨ c = .ahead (.fresh inner))
    (before : List Call) (call : Call) (later : List Call)
    (hend : ∀ r, (call.answer (c.after before opened).1 (c.after before opened).2).1 ≠ .ok (some r)) :
    let finished := c.after (before ++ [call]) opened
    let now := finished.1.after later finished.2
    (now.1.next now.2).1 = .ok none ∧ (now.1.next now.2).2.2 = now.2 ∧
      finished.2.Closes now.2 := by
  intro finished now
  have hlive : c.Live opened := by
    have hinner := openPlan_live hlayered hcovered hopen
    rcases hc with rfl | rfl
    · exact hinner
    · exact ⟨hinner.layered, ⟨Head.noConfusion, hinner.pending⟩, hinner.covered⟩
  have hdone : finished.1.Done finished.2 := by
    -- Either the cursor was done before the last call, or that call has finished it.
    have hfinished : finished = (c.after before opened).1.after [call] (c.after before opened).2 :=
      Cursor.after_append before [call] c opened
    rw [hfinished]
    rcases hlive.after before with hbefore | hbefore
    · have hfinal := hbefore.answer call
      rw [Cursor.after, Cursor.after]
      generalize call.answer _ _ = answer at hend hfinal ⊢
      obtain ⟨result, c', pool'⟩ := answer
      rcases result with e | (_ | r)
      · exact hfinal
      · exact hfinal
      · exact absurd rfl (hend r)
    · exact (hbefore.after [call]).1
  obtain ⟨hnow, hcloses⟩ := hdone.after later
  obtain ⟨c', hnext, -⟩ := hnow.next
  refine ⟨?_, ?_, hcloses⟩
  · rw [hnext]
  · rw [hnext]

/-- Two readers of one splitter, the supply of which breaks off after a row: the row comes, then the
failure, then nothing any more, also when it has been closed. -/
theorem next_after_end_broken :
    let e : OpError := .exec "e"
    let supply : Plan := .probe
      { name := "p", rows := [{ target := .str "a" }], layout := .aggregated, breakOff := some (1, e) }
    let pool := ofSplitters #[supply]
    let plan : Plan := .union [.reader 0 .aggregated, .reader 0 .aggregated]
    let c : Cursor := .union [.fresh (.reader 0 0 false), .fresh (.reader 0 0 false)]
    let opened := (pool.openPlan plan).2
    let first := c.after [.next] opened
    let second := Call.next.answer first.1 first.2
    let finished := c.after ([.next] ++ [.next]) opened
    let now := finished.1.after [.close] finished.2
    pool.Layered ∧ plan.Covered ∧ pool.openPlan plan = (.ok c, opened) ∧
      failureIn second.1 = some e ∧ (now.1.next now.2).1 = .ok none := by
  intro e supply pool plan c opened first second finished now
  have hlayered : pool.Layered := by
    refine layered_ofSplitters fun s plan' hs t ht => ?_
    match s, hs with
    | 0, hs =>
      obtain rfl := Option.some.inj hs
      cases ht
    | s + 1, hs => cases hs
  have hcovered : plan.Covered := trivial
  have hopen : pool.openPlan plan = (.ok c, opened) := rfl
  have hfails : failureIn second.1 = some e := by decide +kernel
  have hend : ∀ r, second.1 ≠ .ok (some r) := by
    intro r hr
    rw [hr] at hfails
    cases hfails
  exact ⟨hlayered, hcovered, hopen, hfails,
    (next_after_end hlayered hcovered hopen (.inl rfl) [.next] .next [.close] hend).1⟩

end Pool

end GraphShapes
