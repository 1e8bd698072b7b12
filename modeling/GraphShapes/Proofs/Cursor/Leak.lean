import GraphShapes.Proofs.Cursor.Balance
import GraphShapes.Proofs.Cursor.ProbeSupply

/-!
# Nothing is leaked

A plan that is collected closes all that it opened, whether it brings rows or fails, except for what
is held by the supplies of splitters that have not been read to the end. Those close it when the
last handle on them is dropped, which is what sweeping the pool stands for. So in the end every
producer outside the library has been closed as often as it was opened
(`Pool.collect_closes_all`).
-/

namespace GraphShapes

namespace Cursor

/-- A cursor that is read to the end and closed leaves nothing open. -/
theorem drainWithin_balances {name : String} {R : SplitterId → Prop} {access : Access}
    (haccess : access.Balances name R) :
    ∀ (fuel : Nat) (c : Cursor) (arrived : List Row) {pool : Pool},
      (∀ s ∈ c.readSplitters, R s) → pool.Layered →
        Pool.Balances name R pool (c.held name) (drainWithin access fuel c arrived pool).2 0
  | 0, c, _, _, _, hlayered => c.close_balances hlayered
  | fuel + 1, c, arrived, pool, hreads, hlayered => by
    have h := c.step_accounts haccess hreads hlayered
    unfold drainWithin
    generalize c.step access pool = step at h ⊢
    obtain ⟨outcome, c', pool'⟩ := step
    have hlayered' : pool'.Layered := h.balances.layered
    cases outcome with
    | row r =>
      exact h.balances.trans (drainWithin_balances haccess fuel c' (r :: arrived) h.reads hlayered')
    | busy => exact h.balances.trans (drainWithin_balances haccess fuel c' arrived h.reads hlayered')
    | ended => exact h.balances.trans (c'.close_balances hlayered')
    | failed e => exact h.balances.trans (c'.close_balances hlayered')

end Cursor

namespace Pool

variable {name : String} {pool : Pool}

/-- Collecting a plan leaves nothing open but what splitters hold. -/
theorem collect_balances (hlayered : pool.Layered) (plan : Plan) :
    Balances name (fun _ => True) (pool.prepare plan) 0 (pool.collect plan).2 0 := by
  have haccess : ∀ depth, (access depth).Balances name fun _ => True :=
    fun depth => access_balances name depth fun _ _ _ _ => trivial
  have hopened : (pool.openPlan plan).Accounts name (fun _ => True) (pool.prepare plan) :=
    plan.opened_accounts (haccess _) (fun _ _ => trivial) hlayered
  unfold collect
  generalize pool.openPlan plan = opened at hopened ⊢
  obtain ⟨result, pool'⟩ := opened
  cases result with
  | error e => exact hopened
  | ok c =>
    have hopened : c.Accounts name (fun _ => True) (pool.prepare plan) 0 pool' := hopened
    exact hopened.balances.trans
      (c.drainWithin_balances (haccess _) _ [] hopened.reads hopened.balances.layered)

/-! ## Sweeping -/

theorem supply_of_setSupply {s : SplitterId} {supply : Supply} {splitter : Splitter}
    (hentry : (pool.setSupply s supply).splitters[s]? = some splitter) :
    splitter.supply = supply := by
  rw [getElem?_setSupply, if_pos rfl] at hentry
  obtain ⟨splitter', -, rfl⟩ := Option.map_eq_some_iff.1 hentry
  rfl

/-- What it is that a splitter gives up. -/
theorem release_cases (name : String) (pool : Pool) (s : SplitterId) :
    (∃ splitter c, pool.splitters[s]? = some splitter ∧ splitter.supply = .opened c ∧
      pool.release s = (c.close pool).2.setSupply s .ended) ∨
    (∃ splitter plan, pool.splitters[s]? = some splitter ∧ splitter.supply = .waiting plan ∧
      pool.release s = pool.setSupply s .ended) ∨
    ((∀ splitter, pool.splitters[s]? = some splitter → splitter.supply.held name = 0) ∧
      pool.release s = pool) := by
  unfold release
  split
  · rename_i c hsupply
    obtain ⟨splitter, hentry, hsupply⟩ := Option.map_eq_some_iff.1 hsupply
    exact .inl ⟨splitter, c, hentry, hsupply, rfl⟩
  · rename_i plan hsupply
    obtain ⟨splitter, hentry, hsupply⟩ := Option.map_eq_some_iff.1 hsupply
    exact .inr (.inl ⟨splitter, plan, hentry, hsupply, rfl⟩)
  · rename_i hopened hwaiting
    -- a supply that has ended or failed holds nothing
    refine .inr (.inr ⟨fun splitter hentry => ?_, rfl⟩)
    rw [hentry] at hopened hwaiting
    cases hsupply : splitter.supply with
    | waiting plan => exact absurd (congrArg some hsupply) (hwaiting plan)
    | opened c => exact absurd (congrArg some hsupply) (hopened c)
    | ended => rfl
    | failed e => rfl

theorem release_balances (hlayered : pool.Layered) (s : SplitterId) :
    Balances name (fun _ => True) pool 0 (pool.release s) 0 := by
  rcases release_cases name pool s with ⟨splitter, c, hentry, hsupply, hrelease⟩ |
    ⟨splitter, plan, hentry, hsupply, hrelease⟩ | ⟨-, hrelease⟩
  · have hclosed : Balances name (fun _ => True) pool (c.held name) (c.close pool).2 0 :=
      c.close_balances hlayered
    have hentryClosed : (c.close pool).2.splitters[s]? = some splitter := by
      rw [(c.close_closes pool).splitters]
      exact hentry
    rw [hrelease]
    refine (hclosed.setSupply trivial hentryClosed .ended (List.forall_mem_nil _) ?_).cancel
    rw [hsupply]
    exact Nat.add_comm _ _
  · rw [hrelease]
    refine (Balances.refl hlayered 0).setSupply trivial hentry .ended (List.forall_mem_nil _) ?_
    rw [hsupply]
    rfl
  · rw [hrelease]
    exact .refl hlayered 0

/-- A splitter that was released holds nothing. -/
theorem held_release {s : SplitterId} {splitter : Splitter}
    (hentry : (pool.release s).splitters[s]? = some splitter) : splitter.supply.held name = 0 := by
  rcases release_cases name pool s with ⟨_, _, _, _, hrelease⟩ | ⟨_, _, _, _, hrelease⟩ |
    ⟨hnothing, hrelease⟩
  · rw [hrelease] at hentry
    rw [supply_of_setSupply hentry]
    rfl
  · rw [hrelease] at hentry
    rw [supply_of_setSupply hentry]
    rfl
  · rw [hrelease] at hentry
    exact hnothing splitter hentry

theorem sweepBelow_balances : ∀ (n : Nat) {pool : Pool}, pool.Layered →
    Balances name (fun _ => True) pool 0 (pool.sweepBelow n []) 0
  | 0, _, hlayered => .refl hlayered 0
  | s + 1, pool, hlayered => by
    rw [sweepBelow, if_neg List.not_mem_nil]
    have hrelease : Balances name (fun _ => True) pool 0 (pool.release s) 0 :=
      release_balances hlayered s
    exact hrelease.trans (sweepBelow_balances s hrelease.layered)

theorem held_sweepBelow : ∀ (n : Nat) {pool : Pool} {t : SplitterId} {splitter : Splitter},
    t < n → (pool.sweepBelow n []).splitters[t]? = some splitter → splitter.supply.held name = 0
  | s + 1, pool, t, splitter, ht, hentry => by
    rw [sweepBelow, if_neg List.not_mem_nil] at hentry
    rcases Nat.lt_succ_iff_lt_or_eq.1 ht with ht | rfl
    · exact held_sweepBelow s ht hentry
    · -- What is released later leaves the splitter as it is, or at its end.
      rcases (sweepBelow_releases t [] (pool.release t)).entry t with hsame | hended
      · rw [hsame] at hentry
        exact held_release hentry
      · rw [hended] at hentry
        obtain ⟨splitter', -, rfl⟩ := Option.map_eq_some_iff.1 hentry
        rfl

/-- When nothing is in use any more, the splitters hold nothing. -/
theorem held_sweep (name : String) (pool : Pool) : (pool.sweep []).held name = 0 := by
  refine held_eq_zero fun t splitter ht => ?_
  have hlt : t < pool.splitters.size := by
    by_contra hge
    have hnone : pool.splitters[t]? = none := Array.getElem?_eq_none (Nat.le_of_not_lt hge)
    rcases (pool.sweep_releases []).entry t with hsame | hended
    · rw [hsame, hnone] at ht
      cases ht
    · rw [hended, hnone] at ht
      cases ht
  exact held_sweepBelow _ hlt ht

/-! ## From the beginning to the end -/

theorem held_ofSplitters {splitters : Splitters} (hlayered : splitters.Layered) (name : String) :
    (ofSplitters splitters).held name = 0 := by
  refine held_eq_zero fun s splitter hs => ?_
  obtain ⟨plan, -, hwaiting⟩ := waiting_ofSplitters hlayered hs
  rw [hwaiting]
  rfl

/-- When a plan has been collected, with whatever result, and all splitters have been dropped, every
producer outside the library has been closed as often as it was opened. -/
theorem collect_closes_all {splitters : Splitters} (hlayered : splitters.Layered) (plan : Plan)
    (name : String) :
    let pool := ((ofSplitters splitters).collect plan).2.sweep []
    pool.closings name = pool.openings name := by
  intro pool
  have hcollect : Balances name (fun _ => True) ((ofSplitters splitters).prepare plan) 0
      ((ofSplitters splitters).collect plan).2 0 :=
    collect_balances (layered_ofSplitters hlayered) plan
  have hsweep : Balances name (fun _ => True) ((ofSplitters splitters).collect plan).2 0 pool 0 :=
    sweepBelow_balances _ hcollect.layered
  -- opened and closed differ by what is held, at the beginning as at the end
  have hbalance := (hcollect.trans hsweep).balance
  have hend : pool.held name = 0 := held_sweep name _
  have hbeginning : ((ofSplitters splitters).prepare plan).held name = 0 :=
    held_ofSplitters hlayered name
  have hlog : ((ofSplitters splitters).prepare plan).log = [] := log_ofSplitters splitters
  have hopenings : ((ofSplitters splitters).prepare plan).openings name = 0 := by
    rw [openings, hlog]
    rfl
  have hclosings : ((ofSplitters splitters).prepare plan).closings name = 0 := by
    rw [closings, hlog]
    rfl
  omega

/-- A join of two readers of one splitter, the supply of which breaks off after a row, next to
a producer that is still being read. -/
theorem collect_closes_all_broken :
    let e : OpError := .exec "e"
    let rows : List Row := [{ target := .str "a" }, { target := .str "b" }]
    let supply : Plan := .probe { name := "p", rows, layout := .aggregated, breakOff := some (1, e) }
    let plan : Plan := .antiJoin (.probe { name := "q", rows, layout := .aggregated })
      (.innerJoin (.reader 0 .aggregated) (.reader 0 .aggregated))
    let pool := ((ofSplitters #[supply]).collect plan).2.sweep []
    Splitters.Layered #[supply] ∧ failureIn ((ofSplitters #[supply]).collect plan).1 = some e ∧
      pool.openings "q" = 1 ∧ pool.closings "q" = pool.openings "q" := by
  intro e rows supply plan pool
  have hlayered : Splitters.Layered #[supply] := by
    intro s plan' hs t ht
    match s, hs with
    | 0, hs =>
      obtain rfl := Option.some.inj hs
      cases ht
    | s + 1, hs => cases hs
  have hfails : failureIn ((ofSplitters #[supply]).collect plan).1 = some e := by decide +kernel
  have hopened : pool.openings "q" = 1 := by decide +kernel
  exact ⟨hlayered, hfails, hopened, collect_closes_all hlayered plan "q"⟩

end Pool

end GraphShapes
