import GraphShapes.Proofs.Row.Order

/-!
# The three orders are total

Everything that is kept or delivered in order relies on three comparisons: of terms, of statements
and of rows. `ordered_throughout` says what may be relied on. Each of them is a total order, and two
things compare equal only if they are the same as far as the comparison looks (`OrdersBy`): a term
and a statement as a whole, down to any depth of quotation, and a row by its columns. The three fit
each other: a quoted statement compares as the statement does, `Term.least` is a lower bound, and
rows that are cut to their first columns stay in order.
-/

namespace GraphShapes

variable {α β : Type}

/-- The comparison is a total order of the parts that it looks at. -/
structure OrdersBy (part : α → β) (cmp : α → α → Ordering) : Prop where
  refl : ∀ a, (cmp a a).isLE
  trans : ∀ a b c, (cmp a b).isLE → (cmp b c).isLE → (cmp a c).isLE
  total : ∀ a b, (cmp a b).isLE ∨ (cmp b a).isLE
  /-- Compared the other way round, the answer is the opposite one. -/
  swap : ∀ a b, cmp b a = (cmp a b).swap
  eq_iff : ∀ a b, cmp a b = .eq ↔ part a = part b

theorem OrdersBy.of_transCmp {part : α → β} {cmp : α → α → Ordering} [Std.TransCmp cmp]
    (h : ∀ a b, cmp a b = .eq ↔ part a = part b) : OrdersBy part cmp where
  refl _ := Std.ReflCmp.isLE_rfl
  trans _ _ _ := Std.TransCmp.isLE_trans
  total a b := Bool.or_eq_true_iff.1 (Ordered.isLE_total a b)
  swap _ _ := Std.OrientedCmp.eq_swap
  eq_iff := h

theorem Term.ordersBy : OrdersBy id Term.compare :=
  .of_transCmp fun _ _ => Std.LawfulEqCmp.compare_eq_iff_eq

theorem Statement.ordersBy : OrdersBy id Statement.compare :=
  .of_transCmp fun _ _ => Std.LawfulEqCmp.compare_eq_iff_eq

namespace Row

theorem ordersBy : OrdersBy line Row.compare :=
  .of_transCmp fun a b => @Std.LawfulEqCmp.compare_eq_iff_eq _ compareLines _ a.line b.line

/-- Terms, statements and rows are totally ordered, the quoted statement as the plain one, with a
least term, and so that cutting rows keeps their order. -/
theorem ordered_throughout :
    OrdersBy id Term.compare ∧ OrdersBy id Statement.compare ∧ OrdersBy line Row.compare ∧
      (∀ a b : Statement, a.quoted.compare b.quoted = a.compare b) ∧
      (∀ t : Term, (Term.least.compare t).isLE) ∧
      ∀ (n : Nat) (a b : Row), (a.compare b).isLE → ((a.trim n).compare (b.trim n)).isLE :=
  ⟨Term.ordersBy, Statement.ordersBy, ordersBy, fun _ _ => Term.compare_triple ..,
    Term.isLE_compare_least, fun n _ _ => isLE_trim n⟩

/-- The first row is below the second by a term three quotations deep in the last column, and has
fewer columns. Cut to two columns they cannot be told apart. -/
theorem ordered_throughout_nested :
    let around (t : Term) : Term := .triple (.int 2) (.triple (.triple (.int 7) t (.int 0)) t t) t
    let a : Row := ⟨.int 1, [.bool true, around (.int 3)], .delta, []⟩
    let b : Row := ⟨.int 1, [.bool true, around (.int 4), .int 5], .base, [⟨9⟩]⟩
    a.compare b = .lt ∧ ((a.trim 2).compare (b.trim 2)).isLE ∧ (a.trim 2).line = (b.trim 2).line := by
  intro around a b
  have hlt : a.compare b = .lt := by decide
  obtain ⟨-, -, -, -, -, htrim⟩ := ordered_throughout
  exact ⟨hlt, htrim 2 a b (by rw [hlt]; rfl), rfl⟩

end Row

end GraphShapes
