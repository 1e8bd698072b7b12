import GraphShapes.Cursor.Run
import GraphShapes.Proofs.Cursor.Close
import GraphShapes.Proofs.Cursor.Handling

/-!
# The first failure comes out unchanged

A plan that is read to the end fails exactly if something below its operators does, and with that
very failure (`Pool.collect_reports_first_failure`): a producer outside the library that refuses to
be opened or breaks off, or a source that cannot be read. Nothing is read any more after that.

`Pool.Reports` says this of any part of a run, with the log as its witness. It is carried through
the constructors of plans when they are opened and through those of cursors when they are stepped,
then up the nesting of the splitters. A splitter whose supply failed hands the same failure to
later readers; a run that only meets such a failure has none of its own.
-/

namespace GraphShapes

/-- The failure that an event is, if it is one. -/
def Event.failure? : Event → Option OpError
  | refused _ e => some e
  | brokeOff _ e => some e
  | unreadable e => some e
  | _ => none

/-- The failures among events of which the last one comes first, in the order of time. -/
def failuresOf (events : List Event) : List OpError :=
  (events.filterMap Event.failure?).reverse

/-- The failures of a longer log, the later events standing in front. -/
theorem failuresOf_append (later earlier : List Event) :
    failuresOf (later ++ earlier) = failuresOf earlier ++ failuresOf later := by
  simp [failuresOf]

/-- Closing sources is no failure. -/
theorem failuresOf_closed (names : List String) : failuresOf (names.map Event.closed) = [] := by
  simp [failuresOf, List.filterMap_map, Event.failure?, Function.comp_def]

/-- The failure that a step brings, if it brings one. -/
def Outcome.failure? : Outcome → Option OpError
  | failed e => some e
  | _ => none

/-- The failure in which a run ends, if it ends in one. -/
def failureIn {α : Type} : Except OpError α → Option OpError
  | .ok _ => none
  | .error e => some e

/-- The failure that a splitter remembers. -/
def Supply.failure? : Supply → Option OpError
  | failed e => some e
  | _ => none

namespace Pool

/-- No splitter has failed. -/
def Unfailed (pool : Pool) : Prop :=
  ∀ (s : SplitterId) (splitter : Splitter), pool.splitters[s]? = some splitter →
    splitter.supply.failure? = none

/-- Between two pools nothing has failed except as reported. The failure that is reported is the
only one, unless a splitter had failed before. -/
def Reports (pool : Pool) (failure : Option OpError) (pool' : Pool) : Prop :=
  ∃ events, pool'.log = events ++ pool.log ∧
    (failuresOf events = [] ∨ failuresOf events = failure.toList) ∧
    (pool.Unfailed → failuresOf events = failure.toList ∧ (failure = none → pool'.Unfailed))

section Reports

variable {pool pool' pool'' : Pool} {failure : Option OpError}

/-- Where nothing is done there is no failure. -/
theorem Reports.refl (pool : Pool) : pool.Reports none pool :=
  ⟨[], rfl, .inl rfl, fun h => ⟨rfl, fun _ => h⟩⟩

/-- What is done until now had no failure, so the next failure is the first one. -/
theorem Reports.trans (h : pool.Reports none pool') (h' : pool'.Reports failure pool'') :
    pool.Reports failure pool'' := by
  obtain ⟨events, hlog, hquiet, hunfailed⟩ := h
  obtain ⟨events', hlog', hfailures, hunfailed'⟩ := h'
  have hquiet : failuresOf events = [] := hquiet.elim id id
  have happend : failuresOf (events' ++ events) = failuresOf events' := by
    rw [failuresOf_append, hquiet, List.nil_append]
  refine ⟨events' ++ events, by rw [hlog', hlog, List.append_assoc], ?_, fun hpool => ?_⟩
  · rw [happend]
    exact hfailures
  · rw [happend]
    exact hunfailed' ((hunfailed hpool).2 rfl)

/-- Closing does not make a splitter fail. -/
theorem Closes.unfailed (h : pool.Closes pool') (hpool : pool.Unfailed) : pool'.Unfailed := by
  intro s splitter hs
  rw [h.splitters] at hs
  exact hpool s splitter hs

/-- Closing something afterwards changes nothing in what is reported. -/
theorem Reports.closes (h : pool.Reports failure pool') (hclose : pool'.Closes pool'') :
    pool.Reports failure pool'' := by
  obtain ⟨events, hlog, hfailures, hunfailed⟩ := h
  obtain ⟨names, hlog'⟩ := hclose.log
  have happend : failuresOf (names.map Event.closed ++ events) = failuresOf events := by
    rw [failuresOf_append, failuresOf_closed, List.append_nil]
  refine ⟨names.map Event.closed ++ events, by rw [hlog', hlog, List.append_assoc], ?_, ?_⟩
  · rw [happend]
    exact hfailures
  · rw [happend]
    exact fun hpool => ⟨(hunfailed hpool).1, fun hnone => hclose.unfailed ((hunfailed hpool).2 hnone)⟩

/-- An event that is the failure which is reported, or that is none. -/
theorem Reports.record (pool : Pool) {event : Event} (h : event.failure? = failure) :
    pool.Reports failure (pool.record event) := by
  have hfailures : failuresOf [event] = failure.toList := by
    subst h
    cases event <;> rfl
  exact ⟨[event], rfl, .inr hfailures, fun hpool => ⟨hfailures, fun _ => hpool⟩⟩

/-- Changes of splitters are no events. They are reported unless they make a splitter fail. -/
theorem Reports.change (h : pool.Reports failure pool') (s : SplitterId) {f : Splitter → Splitter}
    (hf : failure = none → ∀ splitter, (f splitter).supply.failure? = none) :
    pool.Reports failure (pool'.change s f) := by
  obtain ⟨events, hlog, hfailures, hunfailed⟩ := h
  refine ⟨events, hlog, hfailures, fun hpool => ⟨(hunfailed hpool).1, fun hnone => ?_⟩⟩
  have hpool' : pool'.Unfailed := (hunfailed hpool).2 hnone
  intro t splitter ht
  have ht : (pool'.splitters.modify s f)[t]? = some splitter := ht
  rw [Array.getElem?_modify] at ht
  by_cases hst : s = t
  · rw [if_pos hst] at ht
    obtain ⟨splitter', -, rfl⟩ := Option.map_eq_some_iff.1 ht
    exact hf hnone splitter'
  · rw [if_neg hst] at ht
    exact hpool' t splitter ht

/-- A splitter may get another supply, as long as it is not a failed one. -/
theorem Reports.setSupply (h : pool.Reports none pool') (s : SplitterId) {supply : Supply}
    (hsupply : supply.failure? = none) : pool.Reports none (pool'.setSupply s supply) :=
  h.change s fun _ _ => hsupply

/-- A splitter whose supply fails keeps the failure that was just reported. -/
theorem Reports.setFailed {e : OpError} (h : pool.Reports (some e) pool') (s : SplitterId) :
    pool.Reports (some e) (pool'.setSupply s (.failed e)) :=
  h.change s fun hnone => nomatch hnone

/-- A splitter that has failed may report its failure again. -/
theorem Reports.again {s : SplitterId} {splitter : Splitter} {e : OpError}
    (hs : pool.splitters[s]? = some splitter) (hfailed : splitter.supply = .failed e) :
    pool.Reports (some e) pool :=
  ⟨[], rfl, .inl rfl, fun hpool => by simpa [hfailed, Supply.failure?] using hpool s splitter hs⟩

end Reports

end Pool

/-- What is done with the splitters below reports its failures. -/
structure Access.Reports (access : Access) : Prop where
  start : ∀ (s : SplitterId) (pool : Pool),
    pool.Reports (failureIn (access.start s pool).1) (access.start s pool).2
  read : ∀ (s : SplitterId) (position : Nat) (pool : Pool),
    pool.Reports (access.read s position pool).1.failure? (access.read s position pool).2

/-- An opening that reports its failures. -/
def Cursor.Opened.Reports (opened : Cursor.Opened) (pool : Pool) : Prop :=
  pool.Reports (failureIn opened.1) opened.2

/-- A step that reports its failures. -/
def Cursor.Step.Reports (step : Cursor.Step) (pool : Pool) : Prop :=
  pool.Reports step.1.failure? step.2.2

/-! ## Opening -/

namespace Cursor

/-- An operator over one input is opened with its input. -/
theorem Opened.Reports.map {pool : Pool} {opened : Opened} (h : opened.Reports pool)
    (operator : Cursor → Cursor) : (mapOpened operator opened).Reports pool := by
  obtain ⟨result, pool'⟩ := opened
  cases result <;> exact h

/-- Of two inputs the right one is opened only if the left one could be. -/
theorem Opened.Reports.both {pool : Pool} {left : Opened} (h : left.Reports pool)
    {openRight : Pool → Opened} (hright : ∀ pool, (openRight pool).Reports pool)
    (operator : Cursor → Cursor → Cursor) :
    (bothOpened operator left openRight).Reports pool := by
  obtain ⟨result, pool'⟩ := left
  cases result with
  | error e => exact h
  | ok l =>
    have hright := hright pool'
    simp only [bothOpened]
    cases hopen : openRight pool' with
    | mk result pool'' =>
      rw [hopen] at hright
      cases result with
      | ok r => exact h.trans hright
      | error e => exact (h.trans hright).closes (l.close_closes pool'')

end Cursor

/-- A producer that refuses to be opened is where a failure begins. -/
theorem Probe.opened_reports (p : Probe) (pool : Pool) : (p.opened pool).Reports pool := by
  unfold Probe.opened
  cases p.refusal <;> exact .record pool rfl

section Access

variable {access : Access}

/-- A reader is opened without a failure unless its splitter refuses. -/
theorem Plan.opened_reader_reports (haccess : access.Reports) (s : SplitterId) (layout : Layout)
    (pool : Pool) : ((Plan.reader s layout).opened access pool).Reports pool := by
  have hstart := haccess.start s pool
  rw [Plan.opened]
  cases h : access.start s pool with
  | mk result pool' =>
    rw [h] at hstart
    cases result <;> exact hstart

mutual

/-- Opening a plan reports the first failure below it, by recursion over the plan. -/
theorem Plan.opened_reports (haccess : access.Reports) :
    ∀ (plan : Plan) (pool : Pool), (plan.opened access pool).Reports pool
  | .empty _, pool => .refl pool
  | .values _ _, pool => .refl pool
  | .probe p, pool => p.opened_reports pool
  | .targetScan _, pool => .refl pool
  | .reader s layout, pool => Plan.opened_reader_reports haccess s layout pool
  | .valuesOf targets _ _, pool => (targets.opened_reports haccess pool).map _
  | .countValues targets vs _ _, pool =>
    (targets.opened_reports haccess pool).both (vs.opened_reports haccess) _
  | .filter input _ _, pool => (input.opened_reports haccess pool).map _
  | .trim input _, pool => (input.opened_reports haccess pool).map _
  | .sort _, pool => .refl pool
  | .unique input _, pool => (input.opened_reports haccess pool).map _
  | .union inputs, pool => by
    have hall := Plan.openedAll_reports haccess inputs [] pool
    rw [Plan.opened]
    cases h : Plan.openedAll access inputs [] pool with
    | mk result pool' =>
      rw [h] at hall
      cases result <;> exact hall
  | .tag input _, pool => (input.opened_reports haccess pool).map _
  | .relabel input _, pool => input.opened_reports haccess pool
  | .equalsJoin left right _, pool =>
    (left.opened_reports haccess pool).both (right.opened_reports haccess) _
  | .innerJoin left right, pool =>
    (left.opened_reports haccess pool).both (right.opened_reports haccess) _
  | .antiJoin left right, pool =>
    (left.opened_reports haccess pool).both (right.opened_reports haccess) _

/-- The inputs of a union are opened from left to right. -/
theorem Plan.openedAll_reports (haccess : access.Reports) :
    ∀ (plans : List Plan) (before : List Cursor) (pool : Pool),
      pool.Reports (failureIn (Plan.openedAll access plans before pool).1)
        (Plan.openedAll access plans before pool).2
  | [], _, pool => .refl pool
  | p :: rest, before, pool => by
    have hp := p.opened_reports haccess pool
    rw [Plan.openedAll]
    cases h : p.opened access pool with
    | mk result pool' =>
      rw [h] at hp
      cases result with
      | ok c => exact hp.trans (Plan.openedAll_reports haccess rest (c :: before) pool')
      | error e => exact hp.closes (Cursor.closeEach_closes before.reverse pool')

end

/-! ## Stepping -/

/-- A cursor that fails hands on the failure of what it asked. -/
theorem Cursor.failing_reports {pool pool' : Pool} {e : OpError}
    (h : pool.Reports (some e) pool') (c : Cursor) : (c.failing e pool').Reports pool :=
  h.closes (c.failing_closes e pool')

/-- An operator with one input reports what its input does, if it reports what it does with a row. -/
theorem Cursor.Step.Reports.handled {step : Cursor.Step} {pool : Pool} (h : step.Reports pool)
    {op : Cursor → Cursor} {onRow : Row → Cursor → Pool → Cursor.Step}
    (hrow : ∀ r c pool', pool.Reports none pool' → (onRow r c pool').Reports pool) :
    (step.handled op onRow).Reports pool := by
  obtain ⟨outcome, c, pool'⟩ := step
  cases outcome with
  | row r => exact hrow r c pool' h
  | failed e => exact Cursor.failing_reports h _
  | ended => exact h
  | busy => exact h

/-- A look that fails is a failure of the operator. -/
theorem Cursor.handleLook_reports {α : Type} (op : α → Cursor) {pool : Pool}
    {look : Option OpError × α × Pool} (h : pool.Reports look.1 look.2.2) :
    (Cursor.handleLook op look).Reports pool := by
  obtain ⟨failure, inputs, pool'⟩ := look
  cases failure with
  | none => exact h
  | some e => exact Cursor.failing_reports h _

/-- Rows that are ready are delivered without asking anything. -/
theorem Cursor.deliver_reports (rows : List Row) (rebuild : List Row → Cursor) (pool : Pool) :
    (Cursor.deliver rows rebuild pool).Reports pool := by
  cases rows <;> exact .refl pool

/-- Serving the next row, or breaking off. -/
theorem Probe.serve_reports (p : Probe) (served : Nat) (pool : Pool) (next : Option Row) :
    (Probe.step.serve p served pool next).Reports pool := by
  cases next with
  | none => exact .refl pool
  | some r => exact .record pool rfl

/-- A producer that breaks off is where a failure begins. -/
theorem Probe.step_reports (p : Probe) (served : Nat) (pool : Pool) :
    (p.step served pool).Reports pool := by
  unfold Probe.step
  split
  · split
    · exact .record pool rfl
    · exact p.serve_reports served pool _
  · exact p.serve_reports served pool _

/-- A scan whose source cannot be read is where a failure begins. -/
theorem TargetScan.step_reports (scan : TargetScan) (pool : Pool) :
    (scan.step pool).Reports pool := by
  unfold TargetScan.step
  cases scan.select with
  | error e => exact .record pool rfl
  | ok terms => exact .refl pool

/-- A reader fails as its splitter does. -/
theorem Cursor.reader_reports (haccess : access.Reports) (s : SplitterId) (position : Nat)
    (pool : Pool) : ((Cursor.reader s position false).step access pool).Reports pool := by
  have hread := haccess.read s position pool
  rw [Cursor.step]
  cases h : access.read s position pool with
  | mk outcome pool' =>
    rw [h] at hread
    cases outcome <;> exact hread

/-- A lookahead whose next row is in view, or that is at its end, is passed over. -/
theorem Lookahead.lookFirst_of_seen (access : Access) (inner : Cursor) {head : Head}
    (hseen : head ≠ .unknown) (rest : List Lookahead) (pool : Pool) :
    Lookahead.lookFirst access (.mk inner head :: rest) pool =
      (Lookahead.lookFirst access rest pool).map
        fun (failure, rest, pool) => (failure, .mk inner head :: rest, pool) := by
  rw [Lookahead.lookFirst]
  · cases Lookahead.lookFirst access rest pool <;> rfl
  · rintro c ⟨⟩
    exact hseen rfl

namespace Cursor

variable {pool : Pool} {input : Cursor}

/-- Looking up values fails with the input, or with the source of the values. -/
theorem values_reports (source : Source) (path : Option Path)
    (h : (input.step access pool).Reports pool) :
    ((values input source path []).step access pool).Reports pool := by
  rw [step_values]
  refine h.handled fun target c pool' h => ?_
  cases Path.rowsOf source path target with
  | ok queue => exact h
  | error e => exact failing_reports (h.trans (.record pool' rfl)) _

/-- Filtering fails with its input. -/
theorem filter_reports (keep : Row → Bool) (h : (input.step access pool).Reports pool) :
    ((filter input keep).step access pool).Reports pool := by
  rw [step_filter]
  refine h.handled fun r c pool' h => ?_
  show pool.Reports (if keep r then Outcome.row r else .busy).failure? pool'
  cases keep r <;> exact h

/-- Changing rows fails with its input. -/
theorem mapped_reports (change : Row → Row) (h : (input.step access pool).Reports pool) :
    ((mapped input change).step access pool).Reports pool := by
  rw [step_mapped]
  exact h.handled fun _ _ _ h => h

/-- Dropping repetitions fails with its input. -/
theorem unique_reports (width : Option Nat) (seen : List (List Term))
    (h : (input.step access pool).Reports pool) :
    ((unique input width seen).step access pool).Reports pool := by
  rw [step_unique]
  refine h.handled fun r c pool' h => ?_
  split <;> exact h

/-- Sorting opens its input only when the first row is asked for. -/
theorem unsorted_reports {plan : Plan} (h : (plan.opened access pool).Reports pool) :
    ((unsorted plan).step access pool).Reports pool := by
  rw [step]
  generalize plan.opened access pool = opened at h ⊢
  obtain ⟨result, pool'⟩ := opened
  cases result <;> exact h

/-- While rows are collected for sorting, it fails with its input. -/
theorem sorting_reports (arrived : List Row) (h : (input.step access pool).Reports pool) :
    ((sorting input arrived).step access pool).Reports pool := by
  rw [step]
  generalize input.step access pool = step at h ⊢
  obtain ⟨outcome, input', pool'⟩ := step
  cases outcome with
  | failed e => exact failing_reports h _
  | ended => exact h.closes (input'.close_closes pool')
  | row r => exact h
  | busy => exact h

/-- A union fails with the first of its inputs that does. -/
theorem union_reports {inputs : List Lookahead}
    (h : ∀ look ∈ Lookahead.lookFirst access inputs pool, pool.Reports look.1 look.2.2) :
    ((union inputs).step access pool).Reports pool := by
  rw [step_union]
  cases hlook : Lookahead.lookFirst access inputs pool with
  | none => cases Lookahead.takeLeast? inputs <;> exact .refl pool
  | some look => exact handleLook_reports union (h look hlook)

/-- An operator with two inputs fails with the side that it looks at. -/
theorem merge_reports (how : Merge) {left right : Lookahead} (phase : Phase)
    (hleft : pool.Reports (left.look access pool).1 (left.look access pool).2.2)
    (hright : pool.Reports (right.look access pool).1 (right.look access pool).2.2) :
    ((merge how left right phase []).step access pool).Reports pool := by
  rw [step_merge]
  cases how.move phase left.head right.head with
  | stop => exact .refl pool
  | go => exact .refl pool
  | lookLeft => exact handleLook_reports _ hleft
  | lookRight => exact handleLook_reports _ hright

end Cursor

mutual

/-- A step of any cursor reports the first failure below it, by recursion over the cursor. -/
theorem Cursor.step_reports (haccess : access.Reports) :
    ∀ (c : Cursor) (pool : Pool), (c.step access pool).Reports pool
  | .rows rest, pool => Cursor.deliver_reports rest .rows pool
  | .probe _ _ true, pool => .refl pool
  | .probe p served false, pool => p.step_reports served pool
  | .scan scan, pool => scan.step_reports pool
  | .reader _ _ true, pool => .refl pool
  | .reader s position false, pool => Cursor.reader_reports haccess s position pool
  | .values _ _ _ (_ :: _), pool => .refl pool
  | .values targets source path [], pool =>
    Cursor.values_reports source path (targets.step_reports haccess pool)
  | .filter input keep, pool => Cursor.filter_reports keep (input.step_reports haccess pool)
  | .mapped input change, pool => Cursor.mapped_reports change (input.step_reports haccess pool)
  | .unique input width seen, pool =>
    Cursor.unique_reports width seen (input.step_reports haccess pool)
  | .unsorted plan, pool => Cursor.unsorted_reports (plan.opened_reports haccess pool)
  | .sorting input arrived, pool =>
    Cursor.sorting_reports arrived (input.step_reports haccess pool)
  | .union inputs, pool =>
    Cursor.union_reports (Lookahead.lookFirst_reports haccess inputs pool)
  | .merge _ _ _ _ (_ :: _), pool => .refl pool
  | .merge how left right phase [], pool =>
    Cursor.merge_reports how phase (left.look_reports haccess pool)
      (right.look_reports haccess pool)
  | .ahead (.mk _ (.row _)), pool => .refl pool
  | .ahead (.mk _ .ended), pool => .refl pool
  | .ahead (.mk inner .unknown), pool => inner.step_reports haccess pool

/-- Looking at the next row of an input asks it at most once. -/
theorem Lookahead.look_reports (haccess : access.Reports) : ∀ (l : Lookahead) (pool : Pool),
    pool.Reports (l.look access pool).1 (l.look access pool).2.2
  | .mk inner .unknown, pool => by
    have h := inner.step_reports haccess pool
    rw [Lookahead.look]
    generalize inner.step access pool = step at h ⊢
    obtain ⟨outcome, inner', pool'⟩ := step
    cases outcome <;> exact h
  | .mk _ .ended, pool => .refl pool
  | .mk _ (.row _), pool => .refl pool

/-- Looking for an input that has not been looked at yet. -/
theorem Lookahead.lookFirst_reports (haccess : access.Reports) :
    ∀ (ls : List Lookahead) (pool : Pool), ∀ looked ∈ Lookahead.lookFirst access ls pool,
      pool.Reports looked.1 looked.2.2
  | [], _, _, hlooked => nomatch hlooked
  | .mk inner .unknown :: _, pool, _, hlooked => by
    obtain rfl := Option.some.inj hlooked
    exact (Lookahead.mk inner .unknown).look_reports haccess pool
  | .mk inner .ended :: rest, pool, looked, hlooked => by
    have hseen : Head.ended ≠ .unknown := Head.noConfusion
    rw [Lookahead.lookFirst_of_seen access inner hseen] at hlooked
    obtain ⟨later, hlater, rfl⟩ := Option.map_eq_some_iff.1 hlooked
    exact Lookahead.lookFirst_reports haccess rest pool later hlater
  | .mk inner (.row r) :: rest, pool, looked, hlooked => by
    have hseen : Head.row r ≠ .unknown := Head.noConfusion
    rw [Lookahead.lookFirst_of_seen access inner hseen] at hlooked
    obtain ⟨later, hlater, rfl⟩ := Option.map_eq_some_iff.1 hlooked
    exact Lookahead.lookFirst_reports haccess rest pool later hlater

end

end Access

/-! ## Reading -/

namespace Pool

section Below

variable {below : Access} (hbelow : below.Reports)
include hbelow

/-- Opening the supply of a splitter, which fails from then on if it cannot be opened. -/
theorem start_reports (s : SplitterId) (pool : Pool) :
    pool.Reports (failureIn (start below s pool).1) (start below s pool).2 := by
  unfold start
  cases pool.waiting? s with
  | none => exact .refl pool
  | some plan =>
    have hended : pool.Reports none (pool.change s fun splitter =>
        { splitter with supply := .ended, opens := splitter.opens + 1 }) :=
      (Reports.refl pool).change s fun _ _ => rfl
    have hopened := hended.trans (plan.opened_reports hbelow _)
    simp only
    generalize plan.opened below _ = opened at hopened ⊢
    obtain ⟨result, pool'⟩ := opened
    cases result with
    | ok c => exact hopened.setSupply s rfl
    | error e => exact hopened.setFailed s

/-- Pulling a row from the supply of a splitter, which fails from then on if the supply does. -/
theorem pull_reports (s : SplitterId) (supply : Cursor) (pool : Pool) :
    pool.Reports (pull below s supply pool).1.failure? (pull below s supply pool).2 := by
  have h := supply.step_reports hbelow pool
  unfold pull
  generalize supply.step below pool = step at h ⊢
  obtain ⟨outcome, c, pool'⟩ := step
  cases outcome with
  | row r => exact h.change s fun _ _ => rfl
  | busy => exact h.setSupply s rfl
  | ended => exact (h.closes (c.close_closes pool')).setSupply s rfl
  | failed e => exact (h.closes (c.close_closes pool')).setFailed s

/-- A reader is served from what the splitter keeps, or from its supply. -/
theorem read_reports (s : SplitterId) (position : Nat) (pool : Pool) :
    pool.Reports (read below s position pool).1.failure? (read below s position pool).2 := by
  unfold read
  cases hs : pool.splitters[s]? with
  | none => exact .refl pool
  | some splitter =>
    simp only
    cases splitter.cache[position]? with
    | some r => exact .refl pool
    | none =>
      cases hsupply : splitter.supply with
      | opened c => exact pull_reports hbelow s c pool
      | failed e => exact .again hs hsupply
      | ended => exact .refl pool
      | waiting plan => exact .refl pool

end Below

/-- Splitters report failures however deep they are nested. -/
theorem access_reports : ∀ depth : Nat, (access depth).Reports
  | 0 => ⟨fun _ pool => .refl pool, fun _ _ pool => .refl pool⟩
  | depth + 1 => ⟨start_reports (access_reports depth), read_reports (access_reports depth)⟩

end Pool

namespace Cursor

/-- Reading a cursor to its end stops at the first failure. -/
theorem drainWithin_reports {access : Access} (haccess : access.Reports) :
    ∀ (fuel : Nat) (c : Cursor) (arrived : List Row) (pool : Pool),
      pool.Reports (failureIn (drainWithin access fuel c arrived pool).1)
        (drainWithin access fuel c arrived pool).2
  | 0, c, _, pool => (Pool.Reports.refl pool).closes (c.close_closes pool)
  | fuel + 1, c, arrived, pool => by
    have h := c.step_reports haccess pool
    unfold drainWithin
    generalize c.step access pool = step at h ⊢
    obtain ⟨outcome, c', pool'⟩ := step
    cases outcome with
    | row r => exact h.trans (drainWithin_reports haccess fuel c' (r :: arrived) pool')
    | busy => exact h.trans (drainWithin_reports haccess fuel c' arrived pool')
    | ended => exact h.closes (c'.close_closes pool')
    | failed e => exact h.closes (c'.close_closes pool')

end Cursor

namespace Pool

/-- Opening a plan among the splitters of a pool. -/
theorem openPlan_reports (plan : Plan) (pool : Pool) : (pool.openPlan plan).Reports pool :=
  plan.opened_reports (access_reports _) (pool.prepare plan)

/-- Opening a plan, reading it to the end and closing it. -/
theorem collect_reports (plan : Plan) (pool : Pool) :
    pool.Reports (failureIn (pool.collect plan).1) (pool.collect plan).2 := by
  have h := pool.openPlan_reports plan
  unfold collect
  generalize pool.openPlan plan = opened at h ⊢
  obtain ⟨result, pool'⟩ := opened
  cases result with
  | error e => exact h
  | ok c => exact h.trans (c.drainWithin_reports (access_reports _) _ [] pool')

theorem Unfailed.share {pool : Pool} (h : pool.Unfailed) (plan : Plan) :
    (pool.share plan).2.Unfailed := by
  intro s splitter hs
  have hs : (pool.splitters.push _)[s]? = some splitter := hs
  rw [Array.getElem?_push] at hs
  by_cases hnew : s = pool.splitters.size
  · rw [if_pos hnew] at hs
    obtain rfl := Option.some.inj hs
    rfl
  · rw [if_neg hnew] at hs
    exact h s splitter hs

/-- Before anything is read, no splitter has failed. -/
theorem unfailed_ofSplitters (splitters : Splitters) : (ofSplitters splitters).Unfailed := by
  unfold ofSplitters
  refine Array.foldl_induction (fun _ (pool : Pool) => pool.Unfailed) (fun s splitter hs => ?_) ?_
  · cases hs
  · exact fun _ _ h => h.share _

/-- If anything below the operators fails while a plan is collected, then the result is the first
such failure; if rows are collected, then nothing has failed. Where no splitter had failed before,
the failure that is returned is one that occurred, and the only one. -/
theorem collect_reports_first_failure (pool : Pool) (plan : Plan) :
    ∃ events, (pool.collect plan).2.log = events ++ pool.log ∧
      (∀ e later, failuresOf events = e :: later → (pool.collect plan).1 = .error e) ∧
      (∀ rows, (pool.collect plan).1 = .ok rows → failuresOf events = []) ∧
      (pool.Unfailed → ∀ e, (pool.collect plan).1 = .error e → failuresOf events = [e]) := by
  obtain ⟨events, hlog, hfailures, hunfailed⟩ := pool.collect_reports plan
  refine ⟨events, hlog, ?_, ?_, ?_⟩
  · intro e later hfirst
    cases hresult : (pool.collect plan).1 with
    | ok rows => simp [hresult, failureIn, hfirst] at hfailures
    | error e' =>
      obtain ⟨rfl, -⟩ : e = e' ∧ later = [] := by
        simpa [hresult, failureIn, hfirst] using hfailures
      rfl
  · intro rows hresult
    simpa [hresult, failureIn] using hfailures
  · intro hpool e hresult
    rw [(hunfailed hpool).1, hresult]
    rfl

/-- Both inputs of a join would break off, the right one first, behind a row that has met its
partner. The join does not make do with that pair. The failure of the right input comes out, and the
left input is not read up to its own. -/
example :
    let rows : List Row := [{ target := .str "a" }, { target := .str "b" }]
    let breaking (name : String) (hits : Nat) : Plan :=
      .probe { name, rows, layout := .aggregated, breakOff := some (hits, .exec name) }
    let run := (ofSplitters #[]).collect (.innerJoin (breaking "left" 2) (breaking "right" 1))
    failureIn run.1 = some (.exec "right") ∧ failuresOf run.2.log = [.exec "right"] := by
  decide +kernel

end Pool

end GraphShapes
