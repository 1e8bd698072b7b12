import GraphShapes.Proofs.Cursor.Held

/-!
# The accounts of a run

Opening a plan, stepping a cursor and reading splitters keep the accounts in balance, whether they
succeed or fail, and the cursors that come out of them read no other splitters than before
(`Plan.opened_accounts`, `Cursor.step_accounts`, `Pool.access_balances`).
-/

namespace GraphShapes

open Pool (Balances)

/-- A cursor has come out of a pool in which so many producers of a name were held besides: it
reads only some splitters, and the accounts balance with what it holds itself. -/
structure Cursor.Accounts (name : String) (R : SplitterId → Prop) (pool : Pool) (n : Nat)
    (c : Cursor) (pool' : Pool) : Prop where
  balances : Balances name R pool n pool' (c.held name)
  reads : ∀ s ∈ c.readSplitters, R s

/-- An opening that keeps the accounts. -/
def Cursor.Opened.Accounts (name : String) (R : SplitterId → Prop) (pool : Pool) :
    Cursor.Opened → Prop
  | (.ok c, pool') => c.Accounts name R pool 0 pool'
  | (.error _, pool') => Balances name R pool 0 pool' 0

/-- What is done with the splitters keeps the accounts. -/
structure Access.Balances (name : String) (R : SplitterId → Prop) (access : Access) : Prop where
  start : ∀ (s : SplitterId), R s → ∀ pool : Pool, pool.Layered →
    Pool.Balances name R pool 0 (access.start s pool).2 0
  read : ∀ (s : SplitterId) (position : Nat), R s → ∀ pool : Pool, pool.Layered →
    Pool.Balances name R pool 0 (access.read s position pool).2 0

variable {name : String} {R : SplitterId → Prop} {access : Access}

/-! ## Opening -/

namespace Cursor

/-- An operator that holds what the cursor below it holds keeps the accounts of the cursor. -/
theorem Accounts.over {pool pool' : Pool} {n : Nat} {c : Cursor}
    (h : c.Accounts name R pool n pool') {op : Cursor → Cursor}
    (hheld : ∀ c, (op c).held name = c.held name)
    (hreads : ∀ c, (op c).readSplitters = c.readSplitters) :
    (op c).Accounts name R pool n pool' := by
  constructor
  · rw [hheld]
    exact h.balances
  · rw [hreads]
    exact h.reads

/-- An operator over a cursor holds what the cursor holds. -/
theorem Opened.Accounts.map {pool : Pool} {opened : Opened} (h : opened.Accounts name R pool)
    (operator : Cursor → Cursor) (hheld : ∀ c, (operator c).held name = c.held name)
    (hreads : ∀ c, (operator c).readSplitters = c.readSplitters) :
    (mapOpened operator opened).Accounts name R pool := by
  obtain ⟨result, pool'⟩ := opened
  cases result with
  | error e => exact h
  | ok c => exact Accounts.over (c := c) h hheld hreads

/-- An operator with two inputs holds what its inputs hold. -/
theorem Opened.Accounts.merging {pool : Pool} {left : Opened} (h : left.Accounts name R pool)
    {openRight : Pool → Opened}
    (hright : ∀ pool, pool.Layered → (openRight pool).Accounts name R pool) (how : Merge) :
    (bothOpened (merging how) left openRight).Accounts name R pool := by
  obtain ⟨result, pool'⟩ := left
  cases result with
  | error e => exact h
  | ok l =>
    have h : l.Accounts name R pool 0 pool' := h
    have hright := hright pool' h.balances.layered
    simp only [bothOpened]
    generalize openRight pool' = right at hright ⊢
    obtain ⟨result, pool''⟩ := right
    cases result with
    | error e =>
      -- The left input has been opened in vain, and is closed.
      have hright : Balances name R pool' 0 pool'' 0 := hright
      have hright := hright.frame (l.held name)
      rw [Nat.zero_add] at hright
      exact h.balances.trans (hright.trans (l.close_balances hright.layered))
    | ok r =>
      have hright : r.Accounts name R pool' 0 pool'' := hright
      have hboth := hright.balances.frame (l.held name)
      rw [Nat.zero_add, Nat.add_comm] at hboth
      refine ⟨h.balances.trans hboth, fun s hs => ?_⟩
      rcases List.mem_append.1 hs with hs | hs
      · exact h.reads s hs
      · exact hright.reads s hs

end Cursor

/-- A producer that opens is held until it is closed. -/
theorem Probe.opened_accounts (p : Probe) {pool : Pool} (hlayered : pool.Layered) :
    (p.opened pool).Accounts name R pool := by
  unfold Probe.opened
  cases p.refusal with
  | some e => exact .record hlayered 0 Event.noConfusion Event.noConfusion
  | none =>
    refine ⟨⟨.record R pool _, hlayered, ?_⟩, nofun⟩
    have hopenings : (pool.record (.opened p.name)).openings name =
        pool.openings name + if p.name = name then 1 else 0 := by
      unfold Pool.openings Pool.record
      rw [List.count_cons]
      simp
    have hclosings : (pool.record (.opened p.name)).closings name = pool.closings name :=
      List.count_cons_of_ne Event.noConfusion
    have hpool : (pool.record (.opened p.name)).held name = pool.held name := rfl
    have hheld : (Cursor.probe p 0 false).held name = if p.name = name then 1 else 0 := rfl
    omega

/-- The inputs of a union hold what their cursors hold. -/
theorem Lookahead.heldByAll_fresh (name : String) : ∀ cursors : List Cursor,
    Lookahead.heldByAll name (cursors.map Lookahead.fresh) = Cursor.heldByEach name cursors
  | [] => rfl
  | c :: rest => by
    have ih := Lookahead.heldByAll_fresh name rest
    show c.held name + Lookahead.heldByAll name (rest.map Lookahead.fresh) =
      c.held name + Cursor.heldByEach name rest
    omega

/-- They read what their cursors read. -/
theorem Lookahead.mem_allReadSplitters_fresh {s : SplitterId} : ∀ {cursors : List Cursor},
    s ∈ Lookahead.allReadSplitters (cursors.map Lookahead.fresh) →
      ∃ c ∈ cursors, s ∈ c.readSplitters
  | c :: rest, hs => by
    rcases List.mem_append.1 hs with hs | hs
    · exact ⟨c, List.mem_cons_self, hs⟩
    · obtain ⟨d, hd, hs⟩ := Lookahead.mem_allReadSplitters_fresh hs
      exact ⟨d, List.mem_cons_of_mem c hd, hs⟩

/-- What cursors hold together does not depend on their order. -/
theorem Cursor.heldByEach_reverse (name : String) (cursors : List Cursor) :
    Cursor.heldByEach name cursors.reverse = Cursor.heldByEach name cursors := by
  unfold Cursor.heldByEach
  rw [List.map_reverse, List.sum_reverse]

/-- A reader holds nothing itself; its splitter may open the supply. -/
theorem Plan.opened_reader_accounts (haccess : access.Balances name R) {s : SplitterId} (hs : R s)
    (layout : Layout) {pool : Pool} (hlayered : pool.Layered) :
    ((Plan.reader s layout).opened access pool).Accounts name R pool := by
  have hstart := haccess.start s hs pool hlayered
  rw [Plan.opened]
  generalize access.start s pool = started at hstart ⊢
  obtain ⟨result, pool'⟩ := started
  cases result with
  | error e => exact hstart
  | ok _ =>
    refine ⟨hstart, fun t ht => ?_⟩
    obtain rfl := List.mem_singleton.1 ht
    exact hs

mutual

/-- Opening any plan keeps the accounts, by recursion over the plan. -/
theorem Plan.opened_accounts (haccess : access.Balances name R) :
    ∀ (plan : Plan) {pool : Pool}, (∀ s ∈ plan.readSplitters, R s) → pool.Layered →
      (plan.opened access pool).Accounts name R pool
  | .empty _, _, _, hlayered => ⟨.refl hlayered 0, nofun⟩
  | .values _ _, _, _, hlayered => ⟨.refl hlayered 0, nofun⟩
  | .probe p, _, _, hlayered => p.opened_accounts hlayered
  | .targetScan _, _, _, hlayered => ⟨.refl hlayered 0, nofun⟩
  | .reader s layout, _, hreads, hlayered =>
    Plan.opened_reader_accounts haccess (hreads s (List.mem_singleton_self s)) layout hlayered
  | .valuesOf targets _ _, _, hreads, hlayered =>
    (targets.opened_accounts haccess hreads hlayered).map _ (fun _ => rfl) fun _ => rfl
  | .countValues targets vs _ _, _, hreads, hlayered =>
    (targets.opened_accounts haccess (fun s hs => hreads s (List.mem_append_left _ hs))
      hlayered).merging
        (fun _ => vs.opened_accounts haccess fun s hs => hreads s (List.mem_append_right _ hs)) _
  | .filter input _ _, _, hreads, hlayered =>
    (input.opened_accounts haccess hreads hlayered).map _ (fun _ => rfl) fun _ => rfl
  | .trim input _, _, hreads, hlayered =>
    (input.opened_accounts haccess hreads hlayered).map _ (fun _ => rfl) fun _ => rfl
  | .sort _, _, hreads, hlayered => ⟨.refl hlayered 0, hreads⟩
  | .unique input _, _, hreads, hlayered =>
    (input.opened_accounts haccess hreads hlayered).map _ (fun _ => rfl) fun _ => rfl
  | .union inputs, pool, hreads, hlayered => by
    have hall := Plan.openedAll_accounts haccess inputs [] hreads nofun hlayered
    rw [Plan.opened]
    generalize Plan.openedAll access inputs [] pool = opened at hall ⊢
    obtain ⟨result, pool'⟩ := opened
    cases result with
    | error e => exact hall
    | ok cursors =>
      obtain ⟨hbalances, hcursors⟩ := hall
      constructor
      · show Balances name R pool 0 pool' (Lookahead.heldByAll name _)
        rw [Lookahead.heldByAll_fresh]
        exact hbalances
      · intro s hs
        obtain ⟨c, hc, hs⟩ := Lookahead.mem_allReadSplitters_fresh hs
        exact hcursors c hc s hs
  | .tag input _, _, hreads, hlayered =>
    (input.opened_accounts haccess hreads hlayered).map _ (fun _ => rfl) fun _ => rfl
  | .relabel input _, _, hreads, hlayered => input.opened_accounts haccess hreads hlayered
  | .equalsJoin left right _, _, hreads, hlayered =>
    (left.opened_accounts haccess (fun s hs => hreads s (List.mem_append_left _ hs))
      hlayered).merging
        (fun _ => right.opened_accounts haccess fun s hs => hreads s (List.mem_append_right _ hs)) _
  | .innerJoin left right, _, hreads, hlayered =>
    (left.opened_accounts haccess (fun s hs => hreads s (List.mem_append_left _ hs))
      hlayered).merging
        (fun _ => right.opened_accounts haccess fun s hs => hreads s (List.mem_append_right _ hs)) _
  | .antiJoin left right, _, hreads, hlayered =>
    (left.opened_accounts haccess (fun s hs => hreads s (List.mem_append_left _ hs))
      hlayered).merging
        (fun _ => right.opened_accounts haccess fun s hs => hreads s (List.mem_append_right _ hs)) _

/-- What was opened before belongs to the accounts: it is closed when a later plan refuses. -/
theorem Plan.openedAll_accounts (haccess : access.Balances name R) :
    ∀ (plans : List Plan) (before : List Cursor) {pool : Pool},
      (∀ s ∈ Plan.allReadSplitters plans, R s) → (∀ c ∈ before, ∀ s ∈ c.readSplitters, R s) →
      pool.Layered →
        match Plan.openedAll access plans before pool with
        | (.ok cursors, pool') =>
          Balances name R pool (Cursor.heldByEach name before) pool'
              (Cursor.heldByEach name cursors) ∧
            ∀ c ∈ cursors, ∀ s ∈ c.readSplitters, R s
        | (.error _, pool') => Balances name R pool (Cursor.heldByEach name before) pool' 0
  | [], before, _, _, hbefore, hlayered => by
    refine ⟨?_, fun c hc => hbefore c (List.mem_reverse.1 hc)⟩
    rw [Cursor.heldByEach_reverse]
    exact .refl hlayered _
  | p :: rest, before, pool, hreads, hbefore, hlayered => by
    have hp := p.opened_accounts haccess (fun s hs => hreads s (List.mem_append_left _ hs)) hlayered
    rw [Plan.openedAll]
    generalize p.opened access pool = opened at hp ⊢
    obtain ⟨result, pool'⟩ := opened
    cases result with
    | error e =>
      have hp : Balances name R pool 0 pool' 0 := hp
      -- `p` closed what it had opened, and the cursors in front are closed now
      have hp := hp.frame (Cursor.heldByEach name before)
      rw [Nat.zero_add] at hp
      have hclose : Balances name R pool' (Cursor.heldByEach name before.reverse)
          (Cursor.closeEach before.reverse pool') 0 := Cursor.closeEach_balances _ hp.layered
      rw [Cursor.heldByEach_reverse] at hclose
      exact hp.trans hclose
    | ok c =>
      have hp : c.Accounts name R pool 0 pool' := hp
      -- the cursor of `p` joins those that the rest may have to close
      have hbefore' : ∀ d ∈ c :: before, ∀ s ∈ d.readSplitters, R s := by
        intro d hd
        rcases List.mem_cons.1 hd with rfl | hd
        · exact hp.reads
        · exact hbefore d hd
      have hrest := Plan.openedAll_accounts haccess rest (c :: before)
        (fun s hs => hreads s (List.mem_append_right _ hs)) hbefore' hp.balances.layered
      have hfirst := hp.balances.frame (Cursor.heldByEach name before)
      rw [Nat.zero_add] at hfirst
      simp only
      generalize Plan.openedAll access rest (c :: before) pool' = opened at hrest ⊢
      obtain ⟨result, pool''⟩ := opened
      cases result with
      | error e => exact hfirst.trans hrest
      | ok cursors => exact ⟨hfirst.trans hrest.1, hrest.2⟩

end

/-! ## Stepping -/

namespace Cursor

/-- A cursor that is closed after a failure holds nothing any more. -/
theorem Accounts.failing {pool pool' : Pool} {n : Nat} {c : Cursor}
    (h : c.Accounts name R pool n pool') (e : OpError) :
    (c.failing e pool').2.1.Accounts name R pool n (c.failing e pool').2.2 := by
  have hheld : (c.failing e pool').2.1.held name = 0 := c.held_close name pool'
  constructor
  · rw [hheld]
    exact h.balances.trans (c.close_balances h.balances.layered)
  · intro s hs
    exact h.reads s (c.readSplitters_close pool' hs)

/-- An event that is neither an opening nor a closing. -/
theorem Accounts.record {pool pool' : Pool} {n : Nat} {c : Cursor}
    (h : c.Accounts name R pool n pool') {event : Event} (hopened : event ≠ .opened name)
    (hclosed : event ≠ .closed name) : c.Accounts name R pool n (pool'.record event) where
  balances := h.balances.trans (.record h.balances.layered _ hopened hclosed)
  reads := h.reads

/-- An input in front of a union that has been accounted for. -/
theorem Accounts.behind {pool pool' : Pool} {n : Nat} {ls : List Lookahead}
    (h : (union ls).Accounts name R pool n pool') (l : Lookahead)
    (hl : ∀ s ∈ l.readSplitters, R s) :
    (union (l :: ls)).Accounts name R pool (l.held name + n) pool' := by
  have hframe := h.balances.frame (l.held name)
  rw [Nat.add_comm, Nat.add_comm ((union ls).held name)] at hframe
  refine ⟨hframe, fun s hs => ?_⟩
  rcases List.mem_append.1 hs with hs | hs
  · exact hl s hs
  · exact h.reads s hs

/-- Rows that are ready hold nothing. -/
theorem deliver_accounts (rows : List Row) {pool : Pool} (hlayered : pool.Layered) :
    (deliver rows .rows pool).2.1.Accounts name R pool 0 (deliver rows .rows pool).2.2 := by
  cases rows <;> exact ⟨.refl hlayered 0, nofun⟩

end Cursor

/-- A producer is held as long as it serves rows, and also after it broke off. -/
theorem Probe.serve_accounts (p : Probe) (served : Nat) {pool : Pool} (hlayered : pool.Layered)
    (next : Option Row) :
    (step.serve p served pool next).2.1.Accounts name R pool
      ((Cursor.probe p served false).held name) (step.serve p served pool next).2.2 := by
  cases next with
  | none => exact ⟨.refl hlayered _, nofun⟩
  | some r => exact ⟨.record hlayered _ Event.noConfusion Event.noConfusion, nofun⟩

/-- A step of a producer opens and closes nothing. -/
theorem Probe.step_accounts (p : Probe) (served : Nat) {pool : Pool} (hlayered : pool.Layered) :
    (p.step served pool).2.1.Accounts name R pool ((Cursor.probe p served false).held name)
      (p.step served pool).2.2 := by
  unfold Probe.step
  split
  · split
    · exact ⟨.record hlayered _ Event.noConfusion Event.noConfusion, nofun⟩
    · exact p.serve_accounts served hlayered _
  · exact p.serve_accounts served hlayered _

/-- A scan holds nothing. -/
theorem TargetScan.step_accounts (scan : TargetScan) {pool : Pool} (hlayered : pool.Layered) :
    (scan.step pool).2.1.Accounts name R pool 0 (scan.step pool).2.2 := by
  unfold TargetScan.step
  cases scan.select with
  | error e => exact ⟨.record hlayered _ Event.noConfusion Event.noConfusion, nofun⟩
  | ok terms => exact ⟨.refl hlayered 0, nofun⟩

namespace Lookahead

/-- Handing on the row that was looked at changes nothing about what is held. -/
theorem held_passIf (name : String) (l : Lookahead) (handedOn : Bool) :
    (l.passIf handedOn).held name = l.held name := by
  cases l
  cases handedOn <;> rfl

/-- Nor does it change what is read. -/
theorem readSplitters_passIf (l : Lookahead) (handedOn : Bool) :
    (l.passIf handedOn).readSplitters = l.readSplitters := by
  cases l
  cases handedOn <;> rfl

/-- Taking the smallest row in view changes no cursor. -/
theorem inner_takeLeast? : ∀ {ls ls' : List Lookahead} {r : Row},
    takeLeast? ls = some (r, ls') → ls'.map inner = ls.map inner
  | l :: rest, ls', r, h => by
    rw [takeLeast?] at h
    split at h
    · rename_i r' s rest' hhead hrest
      split at h
      · obtain ⟨-, rfl⟩ := Prod.mk.inj (Option.some.inj h)
        rfl
      · obtain ⟨-, rfl⟩ := Prod.mk.inj (Option.some.inj h)
        rw [List.map_cons, List.map_cons, inner_takeLeast? hrest]
    · obtain ⟨-, rfl⟩ := Prod.mk.inj (Option.some.inj h)
      rfl
    · obtain ⟨⟨s, rest'⟩, hrest, hcons⟩ := Option.map_eq_some_iff.1 h
      obtain ⟨-, rfl⟩ := Prod.mk.inj hcons
      rw [List.map_cons, List.map_cons, inner_takeLeast? hrest]

/-- What the inputs of a union hold, read off their cursors. -/
theorem heldByAll_eq (name : String) : ∀ ls : List Lookahead,
    heldByAll name ls = Cursor.heldByEach name (ls.map inner)
  | [] => rfl
  | .mk c _ :: rest => by
    have ih := heldByAll_eq name rest
    show c.held name + heldByAll name rest = c.held name + Cursor.heldByEach name (rest.map inner)
    omega

/-- What the inputs of a union read, read off their cursors. -/
theorem allReadSplitters_eq : ∀ ls : List Lookahead,
    allReadSplitters ls = (ls.map inner).flatMap Cursor.readSplitters
  | [] => rfl
  | .mk c _ :: rest => by
    rw [allReadSplitters, allReadSplitters_eq rest]
    rfl

end Lookahead

/-- Reading from a splitter keeps the accounts as the splitter does. -/
theorem Cursor.reader_accounts (haccess : access.Balances name R) {s : SplitterId} (hs : R s)
    (position : Nat) {pool : Pool} (hlayered : pool.Layered) :
    ((Cursor.reader s position false).step access pool).2.1.Accounts name R pool 0
      ((Cursor.reader s position false).step access pool).2.2 := by
  have hread := haccess.read s position hs pool hlayered
  rw [Cursor.step]
  generalize access.read s position pool = read at hread ⊢
  obtain ⟨outcome, pool'⟩ := read
  have hreads : ∀ t ∈ [s], R t := by
    intro t ht
    obtain rfl := List.mem_singleton.1 ht
    exact hs
  cases outcome <;> exact ⟨hread, hreads⟩

/-! ### Operators -/

namespace Cursor

variable {pool pool' : Pool} {n : Nat} {input : Cursor}

/-- An operator with one input keeps the accounts if its input does and it does so with a row. -/
theorem Accounts.handled {step : Step} (h : step.2.1.Accounts name R pool n step.2.2)
    {op : Cursor → Cursor} {onRow : Row → Cursor → Pool → Step}
    (hheld : ∀ c, (op c).held name = c.held name)
    (hreads : ∀ c, (op c).readSplitters = c.readSplitters)
    (hrow : ∀ r c pool', c.Accounts name R pool n pool' →
      (onRow r c pool').2.1.Accounts name R pool n (onRow r c pool').2.2) :
    (step.handled op onRow).2.1.Accounts name R pool n (step.handled op onRow).2.2 := by
  obtain ⟨outcome, c, pool'⟩ := step
  cases outcome with
  | row r => exact hrow r c pool' h
  | failed e => exact (h.over hheld hreads).failing e
  | ended => exact h.over hheld hreads
  | busy => exact h.over hheld hreads

/-- An operator that looks at rows keeps the accounts if the look does. -/
theorem handleLook_accounts {α : Type} (op : α → Cursor) {look : Option OpError × α × Pool}
    (h : (op look.2.1).Accounts name R pool n look.2.2) :
    (handleLook op look).2.1.Accounts name R pool n (handleLook op look).2.2 := by
  obtain ⟨failure, inputs, pool'⟩ := look
  cases failure with
  | none => exact h
  | some e => exact h.failing e

/-- What is in hand belongs to no account, nor does what is made of a row. -/
theorem values_accounts (source : Source) (path : Option Path)
    (h : (input.step access pool).2.1.Accounts name R pool n (input.step access pool).2.2) :
    ((values input source path []).step access pool).2.1.Accounts name R pool n
      ((values input source path []).step access pool).2.2 := by
  rw [step_values]
  refine h.handled (fun _ => rfl) (fun _ => rfl) fun target c pool' h => ?_
  cases Path.rowsOf source path target with
  | ok queue => exact ⟨h.balances, h.reads⟩
  | error e =>
    have hvalues : (values c source path []).Accounts name R pool n pool' :=
      ⟨h.balances, h.reads⟩
    exact (hvalues.record Event.noConfusion Event.noConfusion).failing e

/-- Filtering holds what its input holds. -/
theorem filter_accounts (keep : Row → Bool)
    (h : (input.step access pool).2.1.Accounts name R pool n (input.step access pool).2.2) :
    ((filter input keep).step access pool).2.1.Accounts name R pool n
      ((filter input keep).step access pool).2.2 := by
  rw [step_filter]
  exact h.handled (fun _ => rfl) (fun _ => rfl) fun _ _ _ h => ⟨h.balances, h.reads⟩

/-- Changing rows holds what its input holds. -/
theorem mapped_accounts (change : Row → Row)
    (h : (input.step access pool).2.1.Accounts name R pool n (input.step access pool).2.2) :
    ((mapped input change).step access pool).2.1.Accounts name R pool n
      ((mapped input change).step access pool).2.2 := by
  rw [step_mapped]
  exact h.handled (fun _ => rfl) (fun _ => rfl) fun _ _ _ h => ⟨h.balances, h.reads⟩

/-- Dropping repetitions holds what its input holds. -/
theorem unique_accounts (width : Option Nat) (seen : List (List Term))
    (h : (input.step access pool).2.1.Accounts name R pool n (input.step access pool).2.2) :
    ((unique input width seen).step access pool).2.1.Accounts name R pool n
      ((unique input width seen).step access pool).2.2 := by
  rw [step_unique]
  refine h.handled (fun _ => rfl) (fun _ => rfl) fun r c pool' h => ?_
  split <;> exact ⟨h.balances, h.reads⟩

/-- Sorting holds nothing until it opens its input. -/
theorem unsorted_accounts {plan : Plan} (h : (plan.opened access pool).Accounts name R pool) :
    ((unsorted plan).step access pool).2.1.Accounts name R pool 0
      ((unsorted plan).step access pool).2.2 := by
  rw [step]
  generalize plan.opened access pool = opened at h ⊢
  obtain ⟨result, pool'⟩ := opened
  cases result with
  | ok input =>
    have h : input.Accounts name R pool 0 pool' := h
    exact ⟨h.balances, h.reads⟩
  | error e => exact ⟨h, fun _ hs => absurd hs List.not_mem_nil⟩

/-- At the end of its input a sort closes it, and holds only rows from then on. -/
theorem sorting_accounts (arrived : List Row)
    (h : (input.step access pool).2.1.Accounts name R pool n (input.step access pool).2.2) :
    ((sorting input arrived).step access pool).2.1.Accounts name R pool n
      ((sorting input arrived).step access pool).2.2 := by
  rw [step]
  generalize input.step access pool = step at h ⊢
  obtain ⟨outcome, input', pool'⟩ := step
  replace h : ∀ arrived, (sorting input' arrived).Accounts name R pool n pool' :=
    fun _ => ⟨h.balances, h.reads⟩
  cases outcome with
  | failed e => exact (h []).failing e
  | ended =>
    have h := (h []).balances
    exact ⟨h.trans (input'.close_balances h.layered), fun _ hs => absurd hs List.not_mem_nil⟩
  | row r => exact h _
  | busy => exact h _

/-- A row that goes out of view leaves the cursors behind the heads what they are. -/
theorem union_accounts {inputs : List Lookahead}
    (hreads : ∀ s ∈ Lookahead.allReadSplitters inputs, R s) (hlayered : pool.Layered)
    (h : ∀ look ∈ Lookahead.lookFirst access inputs pool,
      (union look.2.1).Accounts name R pool (Lookahead.heldByAll name inputs) look.2.2) :
    ((union inputs).step access pool).2.1.Accounts name R pool (Lookahead.heldByAll name inputs)
      ((union inputs).step access pool).2.2 := by
  rw [step_union]
  cases hlook : Lookahead.lookFirst access inputs pool with
  | some look => exact handleLook_accounts union (h look hlook)
  | none =>
    cases hleast : Lookahead.takeLeast? inputs with
    | none => exact ⟨.refl hlayered _, hreads⟩
    | some taken =>
      obtain ⟨r, inputs'⟩ := taken
      -- taking a row out of view leaves every cursor in its place
      have hinner := Lookahead.inner_takeLeast? hleast
      have hheld : Lookahead.heldByAll name inputs' = Lookahead.heldByAll name inputs := by
        rw [Lookahead.heldByAll_eq, Lookahead.heldByAll_eq, hinner]
      have hsame : Lookahead.allReadSplitters inputs' = Lookahead.allReadSplitters inputs := by
        rw [Lookahead.allReadSplitters_eq, Lookahead.allReadSplitters_eq, hinner]
      constructor
      · show Balances name R pool (Lookahead.heldByAll name inputs) pool
          (Lookahead.heldByAll name inputs')
        rw [hheld]
        exact .refl hlayered _
      · show ∀ s ∈ Lookahead.allReadSplitters inputs', R s
        rw [hsame]
        exact hreads

section Merging

variable (how : Merge) (phase : Phase) {left right : Lookahead}

/-- What has become of one side of a merge, beside the other side as it was. -/
theorem merge_accounts_left {left' : Lookahead}
    (hbalances : Balances name R pool (left.held name) pool' (left'.held name))
    (hleft : ∀ s ∈ left'.readSplitters, R s) (hright : ∀ s ∈ right.readSplitters, R s) :
    (merge how left' right phase []).Accounts name R pool (left.held name + right.held name)
      pool' := by
  refine ⟨hbalances.frame (right.held name), fun s hs => ?_⟩
  rcases List.mem_append.1 hs with hs | hs
  · exact hleft s hs
  · exact hright s hs

/-- An operator with two inputs after it looked at the right one. -/
theorem merge_accounts_right {right' : Lookahead}
    (hbalances : Balances name R pool (right.held name) pool' (right'.held name))
    (hleft : ∀ s ∈ left.readSplitters, R s) (hright : ∀ s ∈ right'.readSplitters, R s) :
    (merge how left right' phase []).Accounts name R pool (left.held name + right.held name)
      pool' := by
  have hframe := hbalances.frame (left.held name)
  rw [Nat.add_comm, Nat.add_comm (right'.held name)] at hframe
  refine ⟨hframe, fun s hs => ?_⟩
  rcases List.mem_append.1 hs with hs | hs
  · exact hleft s hs
  · exact hright s hs

/-- An operator with two inputs looks at one of them at a time. -/
theorem merge_accounts (hlayered : pool.Layered) (hreadsLeft : ∀ s ∈ left.readSplitters, R s)
    (hreadsRight : ∀ s ∈ right.readSplitters, R s)
    (hleft : Balances name R pool (left.held name) (left.look access pool).2.2
        ((left.look access pool).2.1.held name) ∧
      ∀ s ∈ (left.look access pool).2.1.readSplitters, R s)
    (hright : Balances name R pool (right.held name) (right.look access pool).2.2
        ((right.look access pool).2.1.held name) ∧
      ∀ s ∈ (right.look access pool).2.1.readSplitters, R s) :
    ((merge how left right phase []).step access pool).2.1.Accounts name R pool
      (left.held name + right.held name)
      ((merge how left right phase []).step access pool).2.2 := by
  have hreads : ∀ s ∈ left.readSplitters ++ right.readSplitters, R s :=
    List.forall_mem_append.2 ⟨hreadsLeft, hreadsRight⟩
  rw [step_merge]
  cases how.move phase left.head right.head with
  | stop => exact ⟨.refl hlayered _, hreads⟩
  | go delivered passLeft passRight phase' =>
    constructor
    · show Balances name R pool (left.held name + right.held name) pool
        ((left.passIf passLeft).held name + (right.passIf passRight).held name)
      rw [Lookahead.held_passIf, Lookahead.held_passIf]
      exact .refl hlayered _
    · show ∀ s ∈ (left.passIf passLeft).readSplitters ++
        (right.passIf passRight).readSplitters, R s
      rw [Lookahead.readSplitters_passIf, Lookahead.readSplitters_passIf]
      exact hreads
  | lookLeft =>
    exact handleLook_accounts _ (merge_accounts_left how phase hleft.1 hleft.2 hreadsRight)
  | lookRight =>
    exact handleLook_accounts _ (merge_accounts_right how phase hright.1 hreadsLeft hright.2)

end Merging

end Cursor

/-! ### All cursors -/

mutual

/-- A step of any cursor keeps the accounts, by recursion over the cursor. -/
theorem Cursor.step_accounts (haccess : access.Balances name R) :
    ∀ (c : Cursor) {pool : Pool}, (∀ s ∈ c.readSplitters, R s) → pool.Layered →
      (c.step access pool).2.1.Accounts name R pool (c.held name) (c.step access pool).2.2
  | .rows rest, _, _, hlayered => Cursor.deliver_accounts rest hlayered
  | .probe _ _ true, _, _, hlayered => ⟨.refl hlayered _, nofun⟩
  | .probe p served false, _, _, hlayered => p.step_accounts served hlayered
  | .scan scan, _, _, hlayered => scan.step_accounts hlayered
  | .reader _ _ true, _, hreads, hlayered => ⟨.refl hlayered _, hreads⟩
  | .reader s position false, _, hreads, hlayered =>
    Cursor.reader_accounts haccess (hreads s (List.mem_singleton_self s)) position hlayered
  | .values _ _ _ (_ :: _), _, hreads, hlayered => ⟨.refl hlayered _, hreads⟩
  | .values targets source path [], _, hreads, hlayered =>
    Cursor.values_accounts source path (targets.step_accounts haccess hreads hlayered)
  | .filter input keep, _, hreads, hlayered =>
    Cursor.filter_accounts keep (input.step_accounts haccess hreads hlayered)
  | .mapped input change, _, hreads, hlayered =>
    Cursor.mapped_accounts change (input.step_accounts haccess hreads hlayered)
  | .unique input width seen, _, hreads, hlayered =>
    Cursor.unique_accounts width seen (input.step_accounts haccess hreads hlayered)
  | .unsorted plan, _, hreads, hlayered =>
    Cursor.unsorted_accounts (plan.opened_accounts haccess hreads hlayered)
  | .sorting input arrived, _, hreads, hlayered =>
    Cursor.sorting_accounts arrived (input.step_accounts haccess hreads hlayered)
  | .union inputs, _, hreads, hlayered =>
    Cursor.union_accounts hreads hlayered
      (Lookahead.lookFirst_accounts haccess inputs hreads hlayered)
  | .merge _ _ _ _ (_ :: _), _, hreads, hlayered => ⟨.refl hlayered _, hreads⟩
  | .merge how left right phase [], _, hreads, hlayered => by
    obtain ⟨hreadsLeft, hreadsRight⟩ := List.forall_mem_append.1 hreads
    exact Cursor.merge_accounts how phase hlayered hreadsLeft hreadsRight
      (left.look_accounts haccess hreadsLeft hlayered)
      (right.look_accounts haccess hreadsRight hlayered)
  | .ahead (.mk _ (.row _)), _, hreads, hlayered => ⟨.refl hlayered _, hreads⟩
  | .ahead (.mk _ .ended), _, hreads, hlayered => ⟨.refl hlayered _, hreads⟩
  | .ahead (.mk inner .unknown), _, hreads, hlayered => by
    have h := inner.step_accounts haccess hreads hlayered
    exact ⟨h.balances, h.reads⟩

/-- Looking at the next row of an input keeps the accounts. -/
theorem Lookahead.look_accounts (haccess : access.Balances name R) :
    ∀ (l : Lookahead) {pool : Pool}, (∀ s ∈ l.readSplitters, R s) → pool.Layered →
      Balances name R pool (l.held name) (l.look access pool).2.2
          ((l.look access pool).2.1.held name) ∧
        ∀ s ∈ (l.look access pool).2.1.readSplitters, R s
  | .mk inner .unknown, pool, hreads, hlayered => by
    have h := inner.step_accounts haccess hreads hlayered
    rw [Lookahead.look]
    generalize inner.step access pool = step at h ⊢
    obtain ⟨outcome, inner', pool'⟩ := step
    cases outcome <;> exact ⟨h.balances, h.reads⟩
  | .mk _ .ended, _, hreads, hlayered => ⟨.refl hlayered _, hreads⟩
  | .mk _ (.row _), _, hreads, hlayered => ⟨.refl hlayered _, hreads⟩

/-- Looking for an input that has not been looked at yet keeps them too. -/
theorem Lookahead.lookFirst_accounts (haccess : access.Balances name R) :
    ∀ (ls : List Lookahead) {pool : Pool}, (∀ s ∈ Lookahead.allReadSplitters ls, R s) →
      pool.Layered → ∀ looked ∈ Lookahead.lookFirst access ls pool,
        (Cursor.union looked.2.1).Accounts name R pool (Lookahead.heldByAll name ls) looked.2.2
  | [], _, _, _, _, hlooked => nomatch hlooked
  | .mk inner .unknown :: rest, _, hreads, hlayered, _, hlooked => by
    obtain rfl := Option.some.inj hlooked
    obtain ⟨hbalances, hfirst⟩ := (Lookahead.mk inner .unknown).look_accounts haccess
      (fun s hs => hreads s (List.mem_append_left _ hs)) hlayered
    refine ⟨hbalances.frame (Lookahead.heldByAll name rest), fun s hs => ?_⟩
    rcases List.mem_append.1 hs with hs | hs
    · exact hfirst s hs
    · exact hreads s (List.mem_append_right _ hs)
  | .mk inner .ended :: rest, pool, hreads, hlayered, looked, hlooked => by
    have hseen : Head.ended ≠ .unknown := Head.noConfusion
    rw [Lookahead.lookFirst_of_seen access inner hseen] at hlooked
    obtain ⟨later, hlater, rfl⟩ := Option.map_eq_some_iff.1 hlooked
    exact (Lookahead.lookFirst_accounts haccess rest
      (fun s hs => hreads s (List.mem_append_right _ hs)) hlayered later hlater).behind
        _ fun s hs => hreads s (List.mem_append_left _ hs)
  | .mk inner (.row r) :: rest, pool, hreads, hlayered, looked, hlooked => by
    have hseen : Head.row r ≠ .unknown := Head.noConfusion
    rw [Lookahead.lookFirst_of_seen access inner hseen] at hlooked
    obtain ⟨later, hlater, rfl⟩ := Option.map_eq_some_iff.1 hlooked
    exact (Lookahead.lookFirst_accounts haccess rest
      (fun s hs => hreads s (List.mem_append_right _ hs)) hlayered later hlater).behind
        _ fun s hs => hreads s (List.mem_append_left _ hs)

end

/-! ## Reading -/

namespace Pool

section Below

variable {s : SplitterId} {below : Access}

/-- What the supply of a splitter has been doing while it was used leaves the splitter alone. -/
theorem Balances.entry {pool pool' : Pool} {n n' : Nat}
    (h : Balances name (fun t => t < s) pool n pool' n') :
    pool'.splitters[s]? = pool.splitters[s]? := h.others s (Nat.lt_irrefl s)

variable (hbelow : below.Balances name fun t => t < s)
include hbelow

/-- Opening the supply of a splitter: the splitter holds what the supply holds. -/
theorem start_balances {pool : Pool} (hlayered : pool.Layered) (hs : R s)
    (hdown : ∀ t, t < s → R t) : Balances name R pool 0 (start below s pool).2 0 := by
  cases hentry : pool.splitters[s]? with
  | none =>
    have hstart : start below s pool = (.ok (), pool) := by
      rw [start, waiting?, hentry, Option.map_none]
    rw [hstart]
    exact .refl hlayered 0
  | some splitter =>
    by_cases hstarted : ∀ plan, splitter.supply ≠ .waiting plan
    · rw [start_started below hentry hstarted]
      exact .refl hlayered 0
    obtain ⟨plan, hsupply⟩ := not_forall_not.1 hstarted
    rw [start_waiting below hentry hsupply]
    -- While the supply is being opened, the splitter has none.
    have hended : Balances name R pool 0 (pool.change s fun splitter =>
        { splitter with supply := .ended, opens := splitter.opens + 1 }) 0 :=
      (Balances.refl hlayered 0).change hs hentry (fun _ => List.forall_mem_nil _)
        (by rw [hsupply]; rfl)
    have hentry' : (pool.change s fun splitter =>
        { splitter with supply := .ended, opens := splitter.opens + 1 }).splitters[s]? =
          some { splitter with supply := .ended, opens := splitter.opens + 1 } := by
      rw [getElem?_change, if_pos rfl, hentry]
      rfl
    have hopened := plan.opened_accounts hbelow (hlayered.supply hentry hsupply) hended.layered
    generalize plan.opened below _ = opened at hopened ⊢
    obtain ⟨result, pool'⟩ := opened
    cases result with
    | error e =>
      have hopened : Balances name (fun t => t < s) _ 0 pool' 0 := hopened
      exact (hended.trans (hopened.mono hdown)).setSupply hs (hopened.entry.trans hentry')
        (.failed e) (List.forall_mem_nil _) rfl
    | ok c =>
      have hopened : c.Accounts name (fun t => t < s) _ 0 pool' := hopened
      exact (hended.trans (hopened.balances.mono hdown)).setSupply hs
        (hopened.balances.entry.trans hentry') (.opened c) hopened.reads (Nat.add_comm _ _)

/-- Pulling a row from the supply, which is closed at its end or failure. -/
theorem pull_balances {pool : Pool} (hlayered : pool.Layered) (hs : R s)
    (hdown : ∀ t, t < s → R t) {splitter : Splitter} (hentry : pool.splitters[s]? = some splitter)
    {supply : Cursor} (hsupply : splitter.supply = .opened supply) :
    Balances name R pool 0 (pull below s supply pool).2 0 := by
  have h := supply.step_accounts hbelow (hlayered.supply hentry hsupply) hlayered
  have hheld : splitter.supply.held name = supply.held name := by rw [hsupply]; rfl
  unfold pull
  generalize supply.step below pool = step at h ⊢
  obtain ⟨outcome, c, pool'⟩ := step
  have hentry' : pool'.splitters[s]? = some splitter := h.balances.entry.trans hentry
  -- The splitter still has the supply as it was before the step, and gives that up for what has
  -- become of it.
  have hbalances : Balances name R pool (supply.held name) pool' (c.held name) :=
    h.balances.mono hdown
  have hclosed : Balances name R pool (supply.held name) (c.close pool').2 0 :=
    hbalances.trans (c.close_balances hbalances.layered)
  have hentryClosed : (c.close pool').2.splitters[s]? = some splitter := by
    rw [(c.close_closes pool').splitters]
    exact hentry'
  cases outcome with
  | row r =>
    have hreads : ∀ splitter : Splitter, ∀ t ∈ ({ splitter with
        supply := .opened c, cache := splitter.cache.push r } : Splitter).supply.readSplitters,
        t < s := fun _ => h.reads
    refine (hbalances.change hs hentry' hreads ?_).cancel
    rw [hheld]
    exact Nat.add_comm _ _
  | busy =>
    refine (hbalances.setSupply hs hentry' (.opened c) h.reads ?_).cancel
    rw [hheld]
    exact Nat.add_comm _ _
  | ended =>
    refine (hclosed.setSupply hs hentryClosed .ended (List.forall_mem_nil _) ?_).cancel
    rw [hheld]
    exact Nat.add_comm _ _
  | failed e =>
    refine (hclosed.setSupply hs hentryClosed (.failed e) (List.forall_mem_nil _) ?_).cancel
    rw [hheld]
    exact Nat.add_comm _ _

/-- Reading a splitter, from what it keeps or from its supply. -/
theorem read_balances {pool : Pool} (hlayered : pool.Layered) (position : Nat) (hs : R s)
    (hdown : ∀ t, t < s → R t) : Balances name R pool 0 (read below s position pool).2 0 := by
  cases hentry : pool.splitters[s]? with
  | none =>
    have hread : read below s position pool = (.ended, pool) := by rw [read, hentry]
    rw [hread]
    exact .refl hlayered 0
  | some splitter =>
    cases hkept : splitter.cache[position]? with
    | some r =>
      rw [read_kept below hentry hkept]
      exact .refl hlayered 0
    | none =>
      rw [read_behind below hentry hkept]
      cases hsupply : splitter.supply with
      | opened c => exact pull_balances hbelow hlayered hs hdown hentry hsupply
      | failed e => exact .refl hlayered 0
      | ended => exact .refl hlayered 0
      | waiting plan => exact .refl hlayered 0

end Below

/-- The access to a pool keeps the accounts, however deep the splitters are nested. -/
theorem access_balances (name : String) : ∀ (depth : Nat) {R : SplitterId → Prop},
    (∀ s t, R s → t < s → R t) → (Pool.access depth).Balances name R
  | 0, _, _ => ⟨fun _ _ _ h => .refl h 0, fun _ _ _ _ h => .refl h 0⟩
  | depth + 1, R, hdown => by
    have hbelow : ∀ s, (Pool.access depth).Balances name fun t => t < s :=
      fun s => access_balances name depth fun t u ht hut => Nat.lt_trans hut ht
    constructor
    · intro s hs pool hlayered
      exact start_balances (hbelow s) hlayered hs fun t => hdown s t hs
    · intro s position hs pool hlayered
      exact read_balances (hbelow s) hlayered position hs fun t => hdown s t hs

end Pool

end GraphShapes
