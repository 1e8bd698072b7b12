import GraphShapes.Proofs.Cursor.Allotted
import GraphShapes.Proofs.Cursor.Failure

/-!
# What cursors hold open

Producers outside the library are known by a name, and the log says how often one of that name was
opened and closed (`Pool.openings`, `Pool.closings`). The others are held open somewhere: by
a cursor (`Cursor.held`), or by the supply of a splitter (`Pool.held`).

Whatever is done with a cursor, these accounts balance (`Pool.Balances`). For a splitter this is so
because the supply that is being stepped is not touched meanwhile: supplies read splitters with
smaller numbers only (`Pool.Layered`), and what a cursor reads is all that its steps change.
-/

namespace GraphShapes

/-! ## The accounts -/

mutual

/-- How many producers of a name a cursor holds open. -/
def Cursor.held (name : String) : Cursor → Nat
  | .rows _ => 0
  | .probe _ _ true => 0
  | .probe p _ false => if p.name = name then 1 else 0
  | .scan _ => 0
  | .reader .. => 0
  | .values targets _ _ _ => targets.held name
  | .filter input _ => input.held name
  | .mapped input _ => input.held name
  | .unique input _ _ => input.held name
  | .unsorted _ => 0
  | .sorting input _ => input.held name
  | .union inputs => Lookahead.heldByAll name inputs
  | .merge _ left right _ _ => left.held name + right.held name
  | .ahead input => input.held name

def Lookahead.held (name : String) : Lookahead → Nat
  | .mk inner _ => inner.held name

def Lookahead.heldByAll (name : String) : List Lookahead → Nat
  | [] => 0
  | l :: rest => l.held name + Lookahead.heldByAll name rest

end

/-- How many producers of a name cursors hold open together. -/
def Cursor.heldByEach (name : String) (cursors : List Cursor) : Nat :=
  (cursors.map (Cursor.held name)).sum

/-- How many producers of a name the plan behind a splitter holds open. -/
def Supply.held (name : String) : Supply → Nat
  | opened c => c.held name
  | _ => 0

namespace Pool

/-- How many producers of a name the splitters hold open. -/
def held (name : String) (pool : Pool) : Nat :=
  (pool.splitters.toList.map fun splitter => splitter.supply.held name).sum

/-- How often a producer of a name has been opened. -/
def openings (name : String) (pool : Pool) : Nat := pool.log.count (.opened name)

/-- How often a producer of a name has been closed. -/
def closings (name : String) (pool : Pool) : Nat := pool.log.count (.closed name)

/-- Every supply reads only splitters with smaller numbers. -/
def Layered (pool : Pool) : Prop :=
  ∀ (s : SplitterId) (splitter : Splitter), pool.splitters[s]? = some splitter →
    ∀ t ∈ splitter.supply.readSplitters, t < s

/-- Between two pools only some splitters have changed, and the accounts of a name balance: what
was held before, by the splitters and by so many others, and what was opened since then is held
afterwards or was closed. -/
structure Balances (name : String) (R : SplitterId → Prop) (pool : Pool) (n : Nat) (pool' : Pool)
    (n' : Nat) : Prop extends Touches R pool pool' where
  layered : pool'.Layered
  balance : pool.held name + n + (pool'.openings name + pool.closings name) =
    pool'.held name + n' + (pool.openings name + pool'.closings name)

section

variable {name : String} {R R' : SplitterId → Prop} {pool pool' pool'' : Pool} {n n' n'' : Nat}

/-- Closing leaves the supplies of splitters alone, so what they read. -/
theorem Closes.layered (h : pool.Closes pool') (hlayered : pool.Layered) : pool'.Layered := by
  intro s splitter hs
  rw [h.splitters] at hs
  exact hlayered s splitter hs

/-- So it leaves alone what splitters hold open. -/
theorem Closes.held (h : pool.Closes pool') : pool'.held name = pool.held name := by
  rw [Pool.held, Pool.held, h.splitters]

/-- Closing opens nothing. -/
theorem Closes.openings (h : pool.Closes pool') : pool'.openings name = pool.openings name := by
  obtain ⟨names, hlog⟩ := h.log
  rw [Pool.openings, hlog, List.count_append, List.count_eq_zero.2 (by simp), Nat.zero_add]
  rfl

/-- Before anything is read, the pool is layered as the splitters are. -/
theorem layered_ofSplitters {splitters : Splitters} (hlayered : splitters.Layered) :
    (ofSplitters splitters).Layered := by
  intro s splitter hentry
  obtain ⟨plan, hplan, hwaiting⟩ := waiting_ofSplitters hlayered hentry
  rw [hwaiting]
  exact hlayered s plan hplan

/-- The supply of a splitter reads only splitters with smaller numbers. -/
theorem Layered.supply (h : pool.Layered) {s : SplitterId} {splitter : Splitter}
    (hentry : pool.splitters[s]? = some splitter) {supply : Supply}
    (hsupply : splitter.supply = supply) : ∀ t ∈ supply.readSplitters, t < s := by
  rw [← hsupply]
  exact h s splitter hentry

/-- A splitter may be changed as long as its supply still does. -/
theorem Layered.change (h : pool.Layered) (s : SplitterId) {f : Splitter → Splitter}
    (hf : ∀ splitter, ∀ t ∈ (f splitter).supply.readSplitters, t < s) :
    (pool.change s f).Layered := by
  intro t splitter ht
  rw [getElem?_change] at ht
  by_cases hst : s = t
  · subst hst
    rw [if_pos rfl] at ht
    obtain ⟨splitter', -, rfl⟩ := Option.map_eq_some_iff.1 ht
    exact hf splitter'
  · rw [if_neg hst] at ht
    exact h t splitter ht

/-- Splitters hold nothing if none of them does. -/
theorem held_eq_zero (h : ∀ (s : SplitterId) (splitter : Splitter),
    pool.splitters[s]? = some splitter → splitter.supply.held name = 0) : pool.held name = 0 := by
  unfold held
  rw [List.sum_eq_zero_iff_forall_eq_nat]
  intro n hn
  obtain ⟨splitter, hmem, rfl⟩ := List.mem_map.1 hn
  obtain ⟨s, hs⟩ := List.mem_iff_getElem?.1 hmem
  rw [Array.getElem?_toList] at hs
  exact h s splitter hs

/-- The change of one splitter counts for itself. -/
theorem held_change (name : String) {s : SplitterId} {splitter : Splitter}
    (hs : pool.splitters[s]? = some splitter) (f : Splitter → Splitter) :
    (pool.change s f).held name + splitter.supply.held name =
      pool.held name + (f splitter).supply.held name := by
  unfold held Pool.change
  rw [Array.toList_modify]
  exact sum_map_modify (fun splitter => splitter.supply.held name) f _ s splitter
    (by rw [Array.getElem?_toList, hs])

namespace Balances

theorem refl (hlayered : pool.Layered) (n : Nat) : Balances name R pool n pool n where
  toTouches := .refl R pool
  layered := hlayered
  balance := rfl

/-- The accounts of one run and of the next balance together. -/
theorem trans (h : Balances name R pool n pool' n') (h' : Balances name R pool' n' pool'' n'') :
    Balances name R pool n pool'' n'' where
  toTouches := h.toTouches.trans h'.toTouches
  layered := h'.layered
  balance := by
    have hbalance := h.balance
    have hbalance' := h'.balance
    omega

/-- What others hold meanwhile makes no difference. -/
theorem frame (h : Balances name R pool n pool' n') (k : Nat) :
    Balances name R pool (n + k) pool' (n' + k) where
  toTouches := h.toTouches
  layered := h.layered
  balance := by
    have hbalance := h.balance
    omega

/-- What others held and still hold drops out. -/
theorem cancel (h : Balances name R pool n pool' n) : Balances name R pool 0 pool' 0 where
  toTouches := h.toTouches
  layered := h.layered
  balance := by
    have hbalance := h.balance
    omega

/-- A run that changes few splitters changes no others than some more. -/
theorem mono (h : Balances name R pool n pool' n') (hR : ∀ s, R s → R' s) :
    Balances name R' pool n pool' n' where
  toTouches := h.toTouches.mono hR
  layered := h.layered
  balance := h.balance

/-- An event that is neither an opening nor a closing. -/
theorem record (hlayered : pool.Layered) (n : Nat) {event : Event}
    (hopened : event ≠ .opened name) (hclosed : event ≠ .closed name) :
    Balances name R pool n (pool.record event) n where
  toTouches := .record R pool event
  layered := hlayered
  balance := by
    have hopenings : (pool.record event).openings name = pool.openings name :=
      List.count_cons_of_ne hopened
    have hclosings : (pool.record event).closings name = pool.closings name :=
      List.count_cons_of_ne hclosed
    rw [hopenings, hclosings]
    rfl

/-- A splitter that holds a cursor takes over what has become of it. -/
theorem change (h : Balances name R pool n pool' n') {s : SplitterId} (hs : R s)
    {splitter : Splitter} (hentry : pool'.splitters[s]? = some splitter) {f : Splitter → Splitter}
    (hf : ∀ splitter, ∀ t ∈ (f splitter).supply.readSplitters, t < s) {k : Nat}
    (hheld : splitter.supply.held name + n' = (f splitter).supply.held name + k) :
    Balances name R pool n (pool'.change s f) k where
  toTouches := h.toTouches.trans (.change R pool' hs f)
  layered := h.layered.change s hf
  balance := by
    have hbalance := h.balance
    have hchange := held_change name hentry f
    have hopenings : (pool'.change s f).openings name = pool'.openings name := rfl
    have hclosings : (pool'.change s f).closings name = pool'.closings name := rfl
    omega

/-- A splitter that gets another supply settles the difference with what was held before. -/
theorem setSupply (h : Balances name R pool n pool' n') {s : SplitterId} (hs : R s)
    {splitter : Splitter} (hentry : pool'.splitters[s]? = some splitter) (supply : Supply)
    (hreads : ∀ t ∈ supply.readSplitters, t < s) {k : Nat}
    (hheld : splitter.supply.held name + n' = supply.held name + k) :
    Balances name R pool n (pool'.setSupply s supply) k :=
  h.change hs hentry (fun _ => hreads) hheld

end Balances

end

end Pool

/-! ## Closing -/

mutual

/-- A closed cursor holds nothing open. -/
theorem Cursor.held_close (name : String) :
    ∀ (c : Cursor) (pool : Pool), (c.close pool).1.held name = 0
  | .rows _, _ => rfl
  | .probe _ _ true, _ => rfl
  | .probe _ _ false, _ => rfl
  | .scan _, _ => rfl
  | .reader .., _ => rfl
  | .values targets _ _ _, pool => targets.held_close name pool
  | .filter input _, pool => input.held_close name pool
  | .mapped input _, pool => input.held_close name pool
  | .unique input _ _, pool => input.held_close name pool
  | .unsorted _, _ => rfl
  | .sorting _ _, _ => rfl
  | .union inputs, pool => Lookahead.heldByAll_closeAll name inputs pool
  | .merge _ left right _ _, pool => by
    have hleft := left.held_close name pool
    have hright := right.held_close name (left.close pool).2
    show (left.close pool).1.held name + (right.close (left.close pool).2).1.held name = 0
    omega
  | .ahead input, pool => input.held_close name pool

/-- A closed input holds nothing. -/
theorem Lookahead.held_close (name : String) :
    ∀ (l : Lookahead) (pool : Pool), (l.close pool).1.held name = 0
  | .mk inner _, pool => inner.held_close name pool

/-- Nor do the closed inputs of a union. -/
theorem Lookahead.heldByAll_closeAll (name : String) : ∀ (ls : List Lookahead) (pool : Pool),
    Lookahead.heldByAll name (Lookahead.closeAll ls pool).1 = 0
  | [], _ => rfl
  | l :: rest, pool => by
    have hfirst := l.held_close name pool
    have hrest := Lookahead.heldByAll_closeAll name rest (l.close pool).2
    show (l.close pool).1.held name +
      Lookahead.heldByAll name (Lookahead.closeAll rest (l.close pool).2).1 = 0
    omega

end

/-- Closing a producer counts for its name only. -/
theorem Probe.closings_record (name : String) (p : Probe) (pool : Pool) :
    (pool.record (.closed p.name)).closings name =
      pool.closings name + if p.name = name then 1 else 0 := by
  unfold Pool.closings Pool.record
  rw [List.count_cons]
  simp

mutual

/-- Closing a cursor closes all that it holds open. -/
theorem Cursor.closings_close (name : String) : ∀ (c : Cursor) (pool : Pool),
    (c.close pool).2.closings name = pool.closings name + c.held name
  | .rows _, _ => rfl
  | .probe _ _ true, _ => rfl
  | .probe p _ false, pool => p.closings_record name pool
  | .scan _, _ => rfl
  | .reader .., _ => rfl
  | .values targets _ _ _, pool => targets.closings_close name pool
  | .filter input _, pool => input.closings_close name pool
  | .mapped input _, pool => input.closings_close name pool
  | .unique input _ _, pool => input.closings_close name pool
  | .unsorted _, _ => rfl
  | .sorting input _, pool => input.closings_close name pool
  | .union inputs, pool => Lookahead.closings_closeAll name inputs pool
  | .merge _ left right _ _, pool => by
    have hleft := left.closings_close name pool
    have hright := right.closings_close name (left.close pool).2
    show (right.close (left.close pool).2).2.closings name =
      pool.closings name + (left.held name + right.held name)
    omega
  | .ahead input, pool => input.closings_close name pool

/-- Closing an input closes what it held. -/
theorem Lookahead.closings_close (name : String) : ∀ (l : Lookahead) (pool : Pool),
    (l.close pool).2.closings name = pool.closings name + l.held name
  | .mk inner _, pool => inner.closings_close name pool

/-- Closing the inputs of a union closes what they held. -/
theorem Lookahead.closings_closeAll (name : String) : ∀ (ls : List Lookahead) (pool : Pool),
    (Lookahead.closeAll ls pool).2.closings name =
      pool.closings name + Lookahead.heldByAll name ls
  | [], _ => rfl
  | l :: rest, pool => by
    have hfirst := l.closings_close name pool
    have hrest := Lookahead.closings_closeAll name rest (l.close pool).2
    show (Lookahead.closeAll rest (l.close pool).2).2.closings name =
      pool.closings name + (l.held name + Lookahead.heldByAll name rest)
    omega

end

mutual

/-- A closed cursor reads nothing that it did not read before. -/
theorem Cursor.readSplitters_close :
    ∀ (c : Cursor) (pool : Pool), (c.close pool).1.readSplitters ⊆ c.readSplitters
  | .rows _, _ => List.Subset.refl _
  | .probe _ _ true, _ => List.Subset.refl _
  | .probe _ _ false, _ => List.Subset.refl _
  | .scan _, _ => List.Subset.refl _
  | .reader .., _ => List.Subset.refl _
  | .values targets _ _ _, pool => targets.readSplitters_close pool
  | .filter input _, pool => input.readSplitters_close pool
  | .mapped input _, pool => input.readSplitters_close pool
  | .unique input _ _, pool => input.readSplitters_close pool
  | .unsorted _, _ => List.nil_subset _
  | .sorting _ _, _ => List.nil_subset _
  | .union inputs, pool => Lookahead.allReadSplitters_closeAll inputs pool
  | .merge _ left right _ _, pool =>
    List.append_subset.2 ⟨List.subset_append_of_subset_left _ (left.readSplitters_close pool),
      List.subset_append_of_subset_right _ (right.readSplitters_close (left.close pool).2)⟩
  | .ahead input, pool => input.readSplitters_close pool

/-- Nor does a closed input. -/
theorem Lookahead.readSplitters_close :
    ∀ (l : Lookahead) (pool : Pool), (l.close pool).1.readSplitters ⊆ l.readSplitters
  | .mk inner _, pool => inner.readSplitters_close pool

/-- Nor do the closed inputs of a union. -/
theorem Lookahead.allReadSplitters_closeAll : ∀ (ls : List Lookahead) (pool : Pool),
    Lookahead.allReadSplitters (Lookahead.closeAll ls pool).1 ⊆ Lookahead.allReadSplitters ls
  | [], _ => List.Subset.refl _
  | l :: rest, pool =>
    List.append_subset.2 ⟨List.subset_append_of_subset_left _ (l.readSplitters_close pool),
      List.subset_append_of_subset_right _
        (Lookahead.allReadSplitters_closeAll rest (l.close pool).2)⟩

end

open Pool (Balances)

section Closing

variable {name : String} {R : SplitterId → Prop} {pool : Pool}

/-- Closing a cursor settles all that it held. -/
theorem Cursor.close_balances (c : Cursor) (hlayered : pool.Layered) :
    Balances name R pool (c.held name) (c.close pool).2 0 where
  toTouches := (c.close_closes pool).touches R
  layered := (c.close_closes pool).layered hlayered
  balance := by
    have hheld : (c.close pool).2.held name = pool.held name := (c.close_closes pool).held
    have hopenings : (c.close pool).2.openings name = pool.openings name :=
      (c.close_closes pool).openings
    have hclosings := c.closings_close name pool
    omega

/-- Closing cursors one after the other settles all that they held. -/
theorem Cursor.closeEach_balances : ∀ (cursors : List Cursor) {pool : Pool}, pool.Layered →
    Balances name R pool (Cursor.heldByEach name cursors) (Cursor.closeEach cursors pool) 0
  | [], _, hlayered => .refl hlayered 0
  | c :: rest, pool, hlayered => by
    have hfirst : Balances name R pool (c.held name) (c.close pool).2 0 :=
      c.close_balances hlayered
    have hrest : Balances name R (c.close pool).2 (Cursor.heldByEach name rest)
        (Cursor.closeEach rest (c.close pool).2) 0 :=
      Cursor.closeEach_balances rest hfirst.layered
    have hfirst := hfirst.frame (Cursor.heldByEach name rest)
    rw [Nat.zero_add] at hfirst
    exact hfirst.trans hrest

end Closing

end GraphShapes
