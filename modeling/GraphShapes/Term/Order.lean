import GraphShapes.Ordered
import GraphShapes.Term

/-!
# The order of terms is a total order

`Term.compare` is oriented, transitive, and calls only equal terms equal; so do the two orders
of statements. The recursion is through quoted statements: a quoted statement compares by its
three positions, so each law of `Term.compare` is proved by induction on a term, with the law for
the three positions at hand.
-/

namespace GraphShapes

/-! ## Comparing one position after the other -/

/-- What a comparison by two criteria says, by what the first of them says. -/
theorem isLE_then {a b : Ordering} : (a.then b).isLE ↔ a = .lt ∨ (a = .eq ∧ b.isLE) := by
  cases a <;> simp [Ordering.then]

theorem isLE_then_of_isLE {a b : Ordering} (ha : a.isLE) (hb : b.isLE) : (a.then b).isLE := by
  cases a with
  | lt => rfl
  | eq => exact hb
  | gt => cases ha

namespace Term

theorem rank_injective {a b : TermKind} (h : a.rank = b.rank) : a = b := by
  cases a <;> cases b <;> first | rfl | cases h

/-- Terms of two kinds compare by kind. -/
theorem compare_of_kind_ne {a b : Term} (h : a.kind ≠ b.kind) :
    a.compare b = Ord.compare a.kind.rank b.kind.rank := by
  cases a <;> cases b <;> first | rfl | exact absurd rfl h

theorem compare_lt_of_rank_lt {a b : Term} (h : a.kind.rank < b.kind.rank) :
    a.compare b = .lt := by
  rw [compare_of_kind_ne fun e => by rw [e] at h; omega]
  exact Nat.compare_eq_lt.2 h

theorem rank_le_of_isLE {a b : Term} (h : (a.compare b).isLE) :
    a.kind.rank ≤ b.kind.rank := by
  by_cases e : a.kind = b.kind
  · exact Nat.le_of_eq (congrArg TermKind.rank e)
  · rw [compare_of_kind_ne e] at h
    exact Nat.isLE_compare.1 h

theorem compare_triple (s p o s' p' o' : Term) :
    (triple s p o).compare (triple s' p' o') =
      (s.compare s').then ((p.compare p').then (o.compare o')) := rfl

/-- Only equal terms compare equal. -/
theorem eq_of_compare_eq : ∀ {a b : Term}, a.compare b = .eq → a = b := by
  intro a
  induction a with
  | triple s p o ihs ihp iho =>
    intro b h
    cases b with
    | triple s' p' o' =>
      rw [compare_triple, Ordering.then_eq_eq, Ordering.then_eq_eq] at h
      obtain ⟨hs, hp, ho⟩ := h
      rw [ihs hs, ihp hp, iho ho]
    | _ => cases h
  | _ =>
    intro b h
    cases b <;> first
      | exact congrArg _ (Std.LawfulEqOrd.eq_of_compare h)
      | cases h

/-- Swapping the terms swaps the outcome. -/
theorem compare_swap : ∀ {a b : Term}, a.compare b = (b.compare a).swap := by
  intro a
  induction a with
  | triple s p o ihs ihp iho =>
    intro b
    cases b with
    | triple s' p' o' =>
      rw [compare_triple, compare_triple, Ordering.swap_then, Ordering.swap_then, ← ihs, ← ihp,
        ← iho]
    | _ => rfl
  | _ =>
    intro b
    cases b <;> exact Std.OrientedOrd.eq_swap

theorem compare_self (a : Term) : a.compare a = .eq := Ordering.eq_eq_of_eq_swap compare_swap

theorem compare_eq_iff {a b : Term} : a.compare b = .eq ↔ a = b :=
  ⟨eq_of_compare_eq, fun h => h ▸ compare_self a⟩

/-- Strictly below and below-or-equal chain to strictly below, once below-or-equal does. -/
theorem compare_lt_of_chain {a b c : Term}
    (trans : (a.compare b).isLE → (b.compare c).isLE → (a.compare c).isLE)
    (h : a.compare b = .lt) (h' : (b.compare c).isLE) : a.compare c = .lt := by
  have hle : (a.compare c).isLE := trans (by rw [h]; rfl) h'
  refine Ordered.eq_lt_of_isLE hle fun hac => ?_
  -- `b` would be below and not below the same term
  obtain rfl := eq_of_compare_eq hac
  rw [compare_swap, h] at h'
  cases h'

/-- Below-or-equal is transitive: by kind, and for quoted statements at the first position that
differs. -/
theorem isLE_compare_trans :
    ∀ {a b c : Term}, (a.compare b).isLE → (b.compare c).isLE → (a.compare c).isLE := by
  intro a
  induction a with
  | triple s p o ihs ihp iho =>
    intro b c hab hbc
    cases b with
    | triple s' p' o' =>
      cases c with
      | triple s'' p'' o'' =>
        simp only [compare_triple, isLE_then] at hab hbc ⊢
        -- decided at the first position in which one of the steps is strict
        rcases hab with hs | ⟨hs, hab⟩
        · refine .inl (compare_lt_of_chain ihs hs ?_)
          rcases hbc with h | ⟨h, -⟩ <;> rw [h] <;> rfl
        · obtain rfl := eq_of_compare_eq hs
          rcases hbc with h | ⟨h, hbc⟩
          · exact .inl h
          · refine .inr ⟨h, ?_⟩
            rcases hab with hp | ⟨hp, hab⟩
            · refine .inl (compare_lt_of_chain ihp hp ?_)
              rcases hbc with h | ⟨h, -⟩ <;> rw [h] <;> rfl
            · obtain rfl := eq_of_compare_eq hp
              rcases hbc with h | ⟨h, hbc⟩
              · exact .inl h
              · exact .inr ⟨h, iho hab hbc⟩
      | _ => cases hbc
    | _ => cases hab
  | _ =>
    intro b c hab hbc
    have hr := rank_le_of_isLE hab
    have hr' := rank_le_of_isLE hbc
    rcases Nat.lt_or_eq_of_le (Nat.le_trans hr hr') with hlt | heq
    · rw [compare_lt_of_rank_lt hlt]
      rfl
    · -- all three are of one kind, and compare by content
      have hb := rank_injective (Nat.le_antisymm hr (heq ▸ hr'))
      have hc := rank_injective heq
      cases b <;> cases hb
      cases c <;> cases hc
      exact Std.TransOrd.isLE_trans hab hbc

instance : Std.TransCmp Term.compare where
  eq_swap := compare_swap
  isLE_trans := isLE_compare_trans

instance : Std.LawfulEqCmp Term.compare where
  compare_self := compare_self _
  eq_of_compare := eq_of_compare_eq

/-- No name is below the empty one. -/
theorem isLE_compare_empty (name : String) : (Ord.compare "" name).isLE := by
  rw [show Ord.compare "" name = compareOfLessAndEq "" name from rfl]
  unfold compareOfLessAndEq
  split
  · rfl
  · next h =>
    have hn : name.toList = [] := by
      have h' : ¬ ("".toList < name.toList) := h
      cases hn : name.toList with
      | nil => rfl
      | cons c l =>
        rw [hn] at h'
        exact absurd (List.nil_lt_cons ..) h'
    rw [if_pos (String.toList_injective hn).symm]
    rfl

/-- `Term.least` is below or equal to every term. -/
theorem isLE_compare_least (a : Term) : (least.compare a).isLE := by
  cases a with
  | iri name => exact isLE_compare_empty name
  | _ => rfl

end Term

namespace Statement

theorem compare_eq_compareLex : Statement.compare =
    compareLex (fun a b => a.subject.compare b.subject)
      (compareLex (fun a b => a.predicate.compare b.predicate)
        (fun a b => a.object.compare b.object)) := rfl

theorem compareByPredicate_eq_compareLex : Statement.compareByPredicate =
    compareLex (fun a b => a.predicate.compare b.predicate)
      (compareLex (fun a b => a.object.compare b.object)
        (fun a b => a.subject.compare b.subject)) := rfl

/-- Statements compared by what stands at one position. -/
theorem transCmp_on (f : Statement → Term) : Std.TransCmp fun a b => (f a).compare (f b) where
  eq_swap := Std.OrientedCmp.eq_swap
  isLE_trans := Std.TransCmp.isLE_trans

instance : Std.TransCmp Statement.compare := by
  have := transCmp_on subject
  have := transCmp_on predicate
  have := transCmp_on object
  rw [compare_eq_compareLex]
  infer_instance

instance : Std.TransCmp Statement.compareByPredicate := by
  have := transCmp_on subject
  have := transCmp_on predicate
  have := transCmp_on object
  rw [compareByPredicate_eq_compareLex]
  infer_instance

instance : Std.LawfulEqCmp Statement.compare where
  compare_self := Std.ReflCmp.compare_self
  eq_of_compare {a b} h := by
    simp only [Statement.compare, Ordering.then_eq_eq, Term.compare_eq_iff] at h
    cases a; cases b
    simp_all

instance : Std.LawfulEqCmp Statement.compareByPredicate where
  compare_self := Std.ReflCmp.compare_self
  eq_of_compare {a b} h := by
    simp only [Statement.compareByPredicate, Ordering.then_eq_eq, Term.compare_eq_iff] at h
    cases a; cases b
    simp_all

end Statement

end GraphShapes
