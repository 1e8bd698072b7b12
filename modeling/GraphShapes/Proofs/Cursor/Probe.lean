import GraphShapes.Cursor.Step

/-!
# Producers outside the library, step by step

`Probe.feedFrom` is what a producer still delivers that has served some rows. A step brings what is
in front of it (`Probe.step_eq`).
-/

namespace GraphShapes

namespace Probe

/-- What a producer that has served so many rows still delivers. -/
def feedFrom (p : Probe) (served : Nat) : RowFeed :=
  match p.breakOff with
  | none => Feed.ofList (p.rows.drop served)
  | some (n, e) =>
    if served ≤ n ∧ n ≤ max p.rows.length served then
      Feed.breaking e ((p.rows.drop served).take (n - served))
    else Feed.ofList (p.rows.drop served)

theorem feedFrom_zero (p : Probe) : p.feedFrom 0 = p.feed := by
  unfold feedFrom feed
  cases p.breakOff with
  | none => rfl
  | some limit =>
    simp only [Nat.zero_le, true_and, Nat.max_zero]
    rfl

/-- What a step of a producer brings is in front of what it still delivers. -/
theorem step_eq (p : Probe) (served : Nat) (pool : Pool) :
    match p.feedFrom served with
    | .done => p.step served pool = (.ended, .probe p served false, pool)
    | .failed e => p.step served pool =
        (.failed e, .probe p served false, pool.record (.brokeOff p.name e))
    | .next r rest => rest = p.feedFrom (served + 1) ∧ p.step served pool =
        (.row r, .probe p (served + 1) false, pool.record (.served p.name)) := by
  have hrow : ∀ r, p.rows[served]? = some r → p.rows.drop served = r :: p.rows.drop (served + 1) :=
    fun r hr => by
      obtain ⟨hlt, rfl⟩ := List.getElem?_eq_some_iff.1 hr
      exact List.drop_eq_getElem_cons hlt
  have hend : p.rows[served]? = none → p.rows.drop served = [] := fun hnone =>
    List.drop_eq_nil_of_le (List.getElem?_eq_none_iff.1 hnone)
  unfold step feedFrom
  cases hbreak : p.breakOff with
  | none =>
    cases hnext : p.rows[served]? with
    | none =>
      rw [hend hnext]
      rfl
    | some r =>
      rw [hrow r hnext]
      exact ⟨rfl, rfl⟩
  | some limit =>
    obtain ⟨n, e⟩ := limit
    -- the limit counts the rows served, also beyond the rows there are
    by_cases hn : served = n
    · subst hn
      have hle : served ≤ max p.rows.length served := Nat.le_max_right _ _
      simp [Feed.breaking, hle]
    · simp only [if_neg hn]
      cases hnext : p.rows[served]? with
      | none =>
        have hlength : p.rows.length ≤ served := List.getElem?_eq_none_iff.1 hnext
        rw [hend hnext, if_neg (by omega)]
        rfl
      | some r =>
        have hlength : served < p.rows.length := (List.getElem?_eq_some_iff.1 hnext).1
        rw [hrow r hnext]
        -- the break lies further on, or further than the rows reach
        by_cases hbreaks : served ≤ n ∧ n ≤ max p.rows.length served
        · obtain ⟨k, hk⟩ : ∃ k, n - served = k + 1 := ⟨n - served - 1, by omega⟩
          have hk' : n - (served + 1) = k := by omega
          rw [if_pos hbreaks, if_pos (by omega), hk, hk']
          exact ⟨rfl, rfl⟩
        · rw [if_neg hbreaks, if_neg (by omega)]
          exact ⟨rfl, rfl⟩

end Probe

end GraphShapes
