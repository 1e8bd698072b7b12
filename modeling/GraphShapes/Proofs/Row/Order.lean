import GraphShapes.Ordered
import GraphShapes.Row
import GraphShapes.Term.Order

/-!
# The order of rows

Rows are ordered by their columns, column by column. The order of column lists is total and calls
only equal lists equal; rows with equal columns may still differ in what they carry along.

Cutting rows to their first columns keeps the order (`isLE_take`), so a stream in ascending order
also ascends by every key that a stage compares (`SortedOn.of_sorted`).
Appending columns keeps it too, unless one line is the beginning of the other
(`compareLines_append_of_not_prefix`).
-/

namespace GraphShapes.Row

instance : Std.TransCmp compareLines :=
  inferInstanceAs (Std.TransCmp (List.compareLex Term.compare))

instance : Std.LawfulEqCmp compareLines :=
  inferInstanceAs (Std.LawfulEqCmp (List.compareLex Term.compare))

instance : Std.TransCmp Row.compare where
  eq_swap {a b} := @Std.OrientedCmp.eq_swap _ compareLines _ a.line b.line
  isLE_trans {a b c} := @Std.TransCmp.isLE_trans _ compareLines _ a.line b.line c.line

theorem compareLines_cons (a b : Term) (as bs : List Term) :
    compareLines (a :: as) (b :: bs) = (a.compare b).then (compareLines as bs) :=
  List.compareLex_cons_cons

theorem compareLines_self (l : List Term) : compareLines l l = .eq := Std.ReflCmp.compare_self

theorem isLE_nil (l : List Term) : (compareLines [] l).isLE := List.isLE_compareLex_nil_left

theorem compareLines_singleton (a b : Term) : compareLines [a] [b] = a.compare b := by
  rw [compareLines_cons]
  cases a.compare b <;> rfl

/-- Cutting both lists to the same length keeps their order. -/
theorem isLE_take : ∀ {a b : List Term} (n : Nat), (compareLines a b).isLE →
    (compareLines (a.take n) (b.take n)).isLE := by
  intro a
  induction a with
  | nil => intro b n _; rw [List.take_nil]; exact isLE_nil _
  | cons x a ih =>
    intro b n h
    cases n with
    | zero => rfl
    | succ n =>
      cases b with
      | nil => cases h
      | cons y b =>
        rw [compareLines_cons] at h
        rw [List.take_succ_cons, List.take_succ_cons, compareLines_cons]
        rcases isLE_then.1 h with h | ⟨h, hle⟩
        · exact isLE_then.2 (.inl h)
        · exact isLE_then.2 (.inr ⟨h, ih n hle⟩)

theorem compareLines_append_left (a b c : List Term) :
    compareLines (a ++ b) (a ++ c) = compareLines b c := by
  induction a with
  | nil => rfl
  | cons x a ih =>
    rw [List.cons_append, List.cons_append, compareLines_cons, Term.compare_self, ih]
    rfl

/-- A line that is not the beginning of a later line stays before it, whatever is appended. -/
theorem compareLines_append_of_not_prefix {a : List Term} :
    ∀ {b : List Term}, (compareLines a b).isLE → ¬ a <+: b → ∀ c d : List Term,
      compareLines (a ++ c) (b ++ d) = .lt := by
  induction a with
  | nil => exact fun _ hp => absurd List.nil_prefix hp
  | cons x a ih =>
    intro b hle hp c d
    cases b with
    | nil => cases hle
    | cons y b =>
      rw [compareLines_cons] at hle
      rw [List.cons_append, List.cons_append, compareLines_cons]
      rcases isLE_then.1 hle with hlt | ⟨heq, htail⟩
      · rw [hlt]
        rfl
      · obtain rfl := Term.eq_of_compare_eq heq
        rw [heq]
        exact ih htail (fun h => hp (List.cons_prefix_cons.2 ⟨rfl, h⟩)) c d

theorem keyOf_one (row : Row) : row.keyOf (some 1) = [row.target] := rfl

theorem keyOf_eq_iff {a b : Row} : a.keyOf (some 1) = b.keyOf (some 1) ↔ a.target = b.target := by
  rw [keyOf_one, keyOf_one, List.cons.injEq]
  exact and_iff_left rfl

/-- The rows are in ascending order of the key that a stage compares. -/
def SortedOn (width : Option Nat) (rows : List Row) : Prop :=
  rows.Pairwise fun a b => (compareLines (a.keyOf width) (b.keyOf width)).isLE

instance (width : Option Nat) (rows : List Row) : Decidable (SortedOn width rows) :=
  inferInstanceAs (Decidable (rows.Pairwise fun a b =>
    (compareLines (a.keyOf width) (b.keyOf width)).isLE))

/-- The rows are in ascending order. -/
abbrev Sorted (rows : List Row) : Prop := SortedOn none rows

/-- The rows are in strictly ascending order: no line occurs twice. -/
def Strict (rows : List Row) : Prop := rows.Pairwise fun a b => Row.compare a b = .lt

theorem SortedOn.of_sorted {rows : List Row} (h : Sorted rows) (width : Option Nat) :
    SortedOn width rows := by
  cases width with
  | none => exact h
  | some n => exact List.Pairwise.imp (fun hab => isLE_take n hab) h

theorem Strict.sorted {rows : List Row} (h : Strict rows) : Sorted rows :=
  List.Pairwise.imp (fun {a b} (hab : Row.compare a b = .lt) => by
    show (Row.compare a b).isLE
    rw [hab]
    rfl) h

variable {rows : List Row}

theorem line_trim (n : Nat) (r : Row) : (r.trim n).line = r.line.take (n - 1 + 1) := rfl

/-- Rows in order stay in order when they are cut, whatever their widths are. -/
theorem isLE_trim {a b : Row} (n : Nat) (h : (a.compare b).isLE) :
    ((a.trim n).compare (b.trim n)).isLE := by
  show (compareLines (a.trim n).line (b.trim n).line).isLE
  rw [line_trim, line_trim]
  exact isLE_take _ h

theorem sorted_trim (h : Sorted rows) (n : Nat) : Sorted (rows.map (trim n)) :=
  List.Pairwise.map _ (fun _ _ hab => isLE_trim n hab) h

/-- What keeps the lines keeps the order. -/
theorem sorted_map {f : Row → Row} (hf : ∀ r, (f r).line = r.line) (h : Sorted rows) :
    Sorted (rows.map f) := by
  refine List.Pairwise.map f (fun a b hab => ?_) h
  show (compareLines (f a).line (f b).line).isLE
  rw [hf, hf]
  exact hab

/-- The order of rows is the order of their lines. -/
theorem sorted_iff : Sorted rows ↔ (rows.map line).Pairwise fun a b => (compareLines a b).isLE := by
  rw [List.pairwise_map]
  exact Iff.rfl

/-- The order of the targets. -/
theorem sorted_targets (h : Sorted rows) :
    (rows.map fun r => [r.target]).Pairwise fun a b => (compareLines a b).isLE := by
  refine List.Pairwise.map _ (fun a b hab => ?_) h
  exact isLE_take 1 hab

theorem sorted_sort (rows : List Row) : Sorted (Ordered.sort Row.compare rows) := by
  show List.Pairwise (fun a b => (Row.compare a b).isLE) _
  exact Ordered.pairwise_sort rows

end GraphShapes.Row
