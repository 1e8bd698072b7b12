import GraphShapes.Path
import GraphShapes.Source

/-!
# What stores hold and what scans find

A store is seen through `Store.toList`: every update says what it does to that list's members
(`mem_insert`, `mem_remove`, `mem_extend`), and two stores with the same members are equal
(`eq_of_mem_iff`).

A scan drops what lies below a lower bound and takes the stretch of answers behind it. That this
is the *whole* answer is a statement about the order: the answers lie side by side, above the
bound (`stretch_eq_filter`). So every scan is the filter of one of the two indexes by the
pattern, `scan_eq_filter_bySubject` and `scan_eq_filter_byPredicate`, and `mem_scan` says what it
finds.

For the two patterns that a path makes, both indexes hold the answers in the same order, and
`scan_pattern` reads the scan off `toList`: the statements that link the target to a value.
-/

namespace GraphShapes

/-- In an ascending list, the elements that pass a test and lie side by side behind a lower bound
are found by dropping what is below the bound and taking what passes. -/
theorem stretch_eq_filter {α : Type} {cmp : α → α → Ordering} [Std.TransCmp cmp] (lower : α)
    (q : α → Bool) (habove : ∀ x, q x → (cmp lower x).isLE)
    (hconvex : ∀ x y, (cmp lower x).isLE → (cmp x y).isLE → q y → q x) :
    ∀ {l : List α}, Ordered.Ascending cmp l →
      (l.dropWhile fun x => (cmp x lower).isLT).takeWhile q = l.filter q
  | [], _ => rfl
  | x :: l, h => by
    obtain ⟨hx, hl⟩ := List.pairwise_cons.1 h
    by_cases hlow : (cmp x lower).isLT
    · have hqx : ¬ q x := fun hq => by
        have hle := habove x hq
        rw [← Std.OrientedCmp.isGE_iff_isLE, Ordering.isLT_iff_eq_lt.1 hlow] at hle
        cases hle
      rw [List.dropWhile_cons, if_pos hlow, List.filter_cons_of_neg hqx]
      exact stretch_eq_filter lower q habove hconvex hl
    · rw [List.dropWhile_cons, if_neg hlow]
      have hle : (cmp lower x).isLE := by
        rw [← Std.OrientedCmp.isGE_iff_isLE, ← Ordering.not_isLT_eq_isGE, Bool.not_eq_true']
        exact Bool.eq_false_iff.2 hlow
      -- from here on nothing is below the bound, and the first failure is the last
      have htake : ∀ {l' : List α}, Ordered.Ascending cmp l' →
          (∀ y ∈ l', (cmp lower y).isLE) → l'.takeWhile q = l'.filter q := by
        intro l'
        induction l' with
        | nil => exact fun _ _ => rfl
        | cons y l' ih =>
          intro hasc hall
          obtain ⟨hy, hl'⟩ := List.pairwise_cons.1 hasc
          by_cases hq : q y
          · rw [List.takeWhile_cons_of_pos hq, List.filter_cons_of_pos hq,
              ih hl' fun z hz => hall z (List.mem_cons_of_mem _ hz)]
          · rw [List.takeWhile_cons_of_neg hq, List.filter_cons_of_neg hq, eq_comm,
              List.filter_eq_nil_iff]
            intro z hz hqz
            exact hq (hconvex y z (hall y (List.mem_cons_self ..)) (by rw [hy z hz]; rfl) hqz)
      refine htake h fun y hy => ?_
      rcases List.mem_cons.1 hy with rfl | hy
      · exact hle
      · exact Std.TransCmp.isLE_trans hle (by rw [hx y hy]; rfl)

namespace Statement

/-- The first order goes by the subject first. -/
theorem isLE_subject {a b : Statement} (h : (Statement.compare a b).isLE) :
    (a.subject.compare b.subject).isLE := by
  rcases isLE_then.1 h with h | ⟨h, -⟩ <;> rw [h] <;> rfl

/-- The second order goes by the predicate first. -/
theorem isLE_predicate {a b : Statement} (h : (compareByPredicate a b).isLE) :
    (a.predicate.compare b.predicate).isLE := by
  rcases isLE_then.1 h with h | ⟨h, -⟩ <;> rw [h] <;> rfl

/-- Among statements of one predicate it goes by the object. -/
theorem isLE_object {a b : Statement} (h : (compareByPredicate a b).isLE)
    (hp : a.predicate = b.predicate) : (a.object.compare b.object).isLE := by
  rcases isLE_then.1 h with h | ⟨-, h⟩
  · rw [hp, Term.compare_self] at h
    cases h
  · rcases isLE_then.1 h with h | ⟨h, -⟩ <;> rw [h] <;> rfl

/-- Two bounds that meet leave one term between them. -/
theorem eq_of_between {a b : Term} (h : (a.compare b).isLE) (h' : (b.compare a).isLE) : a = b :=
  Term.eq_of_compare_eq (Std.OrientedCmp.isLE_antisymm h h')

end Statement

/-- An open position admits every term, a fixed one just its own. -/
theorem Pattern.admits_iff {t : Option Term} {u : Term} :
    admits t u = true ↔ ∀ x, t = some x → u = x := by
  cases t <;> simp [admits, eq_comm]

/-- A statement fits a pattern if it has every term that the pattern fixes. -/
theorem Pattern.fits_iff {p : Pattern} {st : Statement} :
    p.fits st = true ↔ (∀ x, p.subject = some x → st.subject = x) ∧
      (∀ x, p.predicate = some x → st.predicate = x) ∧ ∀ x, p.object = some x → st.object = x := by
  rw [fits, Bool.and_eq_true, Bool.and_eq_true, admits_iff, admits_iff, admits_iff, and_assoc]

/-- A statement that fits has the subject that the pattern fixes. -/
theorem Pattern.subject_of_fits {p : Pattern} {st : Statement} {t : Term}
    (h : p.fits st = true) (hs : p.subject = some t) : st.subject = t := by
  unfold fits at h
  rw [hs, Bool.and_eq_true, Bool.and_eq_true] at h
  exact (of_decide_eq_true h.1.1).symm

namespace Store

variable {s s' : Store} {st x : Statement}

/-- A store contains the statements that it lists. -/
theorem contains_iff_mem : s.contains st = true ↔ st ∈ s.toList :=
  Ordered.contains_iff_mem s.ascending

/-- Inserting a statement adds just that one. -/
theorem mem_insert : x ∈ (s.insert st).toList ↔ x = st ∨ x ∈ s.toList := by
  unfold insert
  split
  · next h => exact ⟨.inr, fun hx => hx.elim (fun e => e ▸ contains_iff_mem.1 h) id⟩
  · exact Ordered.mem_insert

/-- Removing a statement takes just that one away. -/
theorem mem_remove : x ∈ (s.remove st).toList ↔ x ≠ st ∧ x ∈ s.toList := by
  unfold remove
  split
  · exact Ordered.mem_erase s.ascending
  · next h => exact ⟨fun hx => ⟨fun e => h (contains_iff_mem.2 (e ▸ hx)), hx⟩, And.right⟩

/-- Inserting several adds just those. -/
theorem mem_extend {sts : List Statement} :
    ∀ {s : Store}, x ∈ (s.extend sts).toList ↔ x ∈ s.toList ∨ x ∈ sts := by
  induction sts with
  | nil => simp [extend]
  | cons st sts ih =>
    intro s
    rw [extend, List.foldl_cons, ← extend, ih, mem_insert, List.mem_cons, or_comm (a := x = st),
      or_assoc]

/-- The store of a list has the statements of the list. -/
theorem mem_ofList {sts : List Statement} : x ∈ (ofList sts).toList ↔ x ∈ sts := by
  rw [ofList, mem_extend]
  exact or_iff_right List.not_mem_nil

/-- Taking statements out one after the other takes out all of them. -/
theorem mem_foldl_remove {sts : List Statement} :
    ∀ {s : Store}, x ∈ (sts.foldl remove s).toList ↔ x ∈ s.toList ∧ x ∉ sts := by
  induction sts with
  | nil => simp
  | cons st sts ih =>
    intro s
    rw [List.foldl_cons, ih, mem_remove, List.mem_cons, not_or, and_comm (a := x ≠ st), and_assoc]

/-- An empty store has no statement. -/
theorem isEmpty_iff : s.isEmpty = true ↔ ∀ x, x ∉ s.toList := by
  rw [isEmpty, List.isEmpty_iff, List.eq_nil_iff_forall_not_mem]
  rfl

/-- Two stores with the same statements are the same store. -/
theorem eq_of_mem_iff (h : ∀ x, x ∈ s.toList ↔ x ∈ s'.toList) : s = s' := by
  have hs : s.bySubject = s'.bySubject := s.ascending.eq_of_mem_iff s'.ascending h
  have hp : s.byPredicate = s'.byPredicate :=
    s.ascendingByPredicate.eq_of_mem_iff s'.ascendingByPredicate fun x => by
      rw [s.agree, s'.agree]
      exact h x
  cases s; cases s'
  simp only at hs hp
  subst hs hp
  rfl

/-! ## Scans -/

/-- If the subject is fixed, the hits lie side by side in the first index. -/
theorem scan_eq_filter_of_subject {p : Pattern} {t : Term} (h : p.subject = some t) :
    s.scan p = s.bySubject.filter p.fits := by
  unfold scan
  rw [h]
  simp only
  rw [stretch_eq_filter _ _ _ _ s.ascending, List.filter_filter]
  · refine List.filter_congr fun st _ => ?_
    cases hf : p.fits st with
    | false => exact Bool.false_and _
    | true => exact decide_eq_true (Pattern.subject_of_fits hf h)
  · intro st hst
    have hst : st.subject = t := of_decide_eq_true hst
    -- the bound has the same subject, and the least terms behind it
    refine isLE_then.2 (.inr ⟨by rw [← hst]; exact Term.compare_self _, ?_⟩)
    exact isLE_then_of_isLE (Term.isLE_compare_least st.predicate)
      (Term.isLE_compare_least st.object)
  · -- between the bound and an answer there are only answers
    intro x y hx hxy hy
    have hy : y.subject = t := of_decide_eq_true hy
    have hxy := Statement.isLE_subject hxy
    rw [hy] at hxy
    exact decide_eq_true (Statement.eq_of_between hxy (Statement.isLE_subject hx))

/-- If only the predicate or the predicate and the object are fixed, they do in the second. -/
theorem scan_eq_filter_byPredicate {p : Pattern} {t : Term} (h : p.subject = none)
    (hp : p.predicate = some t) : s.scan p = s.byPredicate.filter p.fits := by
  unfold scan
  rw [h, hp]
  simp only
  rw [stretch_eq_filter _ _ _ _ s.ascendingByPredicate]
  · refine List.filter_congr fun st _ => ?_
    unfold Pattern.fits
    rw [h, hp]
    show (decide (st.predicate = t) && _) = (true && decide (t = st.predicate) && _)
    rw [Bool.true_and, decide_eq_decide.2 eq_comm]
  · intro st hst
    simp only [Bool.and_eq_true, decide_eq_true_eq] at hst
    obtain ⟨hpred, hobj⟩ := hst
    refine isLE_then.2 (.inr ⟨by rw [← hpred]; exact Term.compare_self _, ?_⟩)
    refine isLE_then_of_isLE ?_ (Term.isLE_compare_least st.subject)
    cases ho : p.object with
    | none => exact Term.isLE_compare_least st.object
    | some o =>
      rw [ho] at hobj
      have hobj : o = st.object := of_decide_eq_true hobj
      show (o.compare st.object).isLE
      rw [hobj, Term.compare_self]
      rfl
  · -- with the predicate fixed, the object decides
    intro x y hx hxy hy
    simp only [Bool.and_eq_true, decide_eq_true_eq] at hy ⊢
    obtain ⟨hpred, hobj⟩ := hy
    have hxp := Statement.isLE_predicate hxy
    rw [hpred] at hxp
    have hxp : x.predicate = t := Statement.eq_of_between hxp (Statement.isLE_predicate hx)
    refine ⟨hxp, ?_⟩
    cases ho : p.object with
    | none => rfl
    | some o =>
      rw [ho] at hobj hx
      have hobj : o = y.object := of_decide_eq_true hobj
      have hlow := Statement.isLE_object hx (by rw [hxp])
      have hup := Statement.isLE_object hxy (by rw [hxp, hpred])
      rw [← hobj] at hup
      exact decide_eq_true (Statement.eq_of_between hlow hup)

/-- If nothing or only the object is fixed, the first index is gone through. -/
theorem scan_eq_filter_bySubject {p : Pattern} (h : p.subject = none → p.predicate = none) :
    s.scan p = s.bySubject.filter p.fits := by
  cases hs : p.subject with
  | some t => exact scan_eq_filter_of_subject hs
  | none =>
    unfold scan
    rw [hs, h hs]

/-- A scan finds the statements that fit the pattern. -/
theorem mem_scan {p : Pattern} : st ∈ s.scan p ↔ st ∈ s.toList ∧ p.fits st = true := by
  by_cases h : p.subject = none → p.predicate = none
  · rw [scan_eq_filter_bySubject h, List.mem_filter]
    rfl
  · obtain ⟨hs, hp⟩ := Classical.not_imp.1 h
    obtain ⟨t, hp⟩ := Option.ne_none_iff_exists'.1 hp
    rw [scan_eq_filter_byPredicate hs hp, List.mem_filter, s.agree]
    rfl

/-- There is a hit if a statement of the store fits. -/
theorem hasMatch_iff {p : Pattern} :
    s.hasMatch p = true ↔ ∃ st ∈ s.toList, p.fits st = true := by
  unfold hasMatch
  rw [Bool.not_eq_true', List.isEmpty_eq_false_iff_exists_mem]
  exact exists_congr fun st => mem_scan

end Store

/-! ## Scans along a path -/

/-- Does the statement link the target to a value along the path? -/
def Path.links (p : Path) (target : Term) (st : Statement) : Bool :=
  st.predicate = p.relation && p.focusOf st = target

/-- A statement links a target to a value if it has the relation of the path and the target at its
near end. -/
theorem Path.links_iff {p : Path} {target : Term} {st : Statement} :
    p.links target st = true ↔ st.predicate = p.relation ∧ p.focusOf st = target := by
  rw [links, Bool.and_eq_true, decide_eq_true_eq, decide_eq_true_eq]

/-- The pattern of a target is fitted by the statements that link it to a value. -/
theorem Path.fits_pattern (p : Path) (target : Term) (st : Statement) :
    (p.pattern target).fits st = p.links target st := by
  cases p <;> simp [pattern, Pattern.fits, Pattern.admits, links, focusOf, relation, eq_comm,
    Bool.and_comm]

/-- The scan for a target along a path finds the statements that link it to a value, in order. -/
theorem Store.scan_pattern (s : Store) (p : Path) (target : Term) :
    s.scan (p.pattern target) = s.toList.filter (p.links target) := by
  have hfits : (p.pattern target).fits = p.links target := funext (p.fits_pattern target)
  cases p with
  | predicate r =>
    rw [scan_eq_filter_bySubject (by intro h; cases h), hfits]
    rfl
  | inverse r =>
    rw [scan_eq_filter_byPredicate rfl rfl, hfits]
    -- with predicate and object fixed, both indexes are ascending by subject
    have hasc : Ordered.Ascending Statement.compare
        (s.byPredicate.filter ((Path.inverse r).links target)) := by
      refine (s.ascendingByPredicate.sublist List.filter_sublist).imp_of_mem ?_
      intro a b ha hb hab
      have ha := Path.links_iff.1 (List.mem_filter.1 ha).2
      have hb := Path.links_iff.1 (List.mem_filter.1 hb).2
      unfold Statement.compareByPredicate at hab
      rw [ha.1, hb.1, Term.compare_self] at hab
      change (a.object.compare b.object).then _ = .lt at hab
      rw [show a.object = target from ha.2, show b.object = target from hb.2,
        Term.compare_self] at hab
      change a.subject.compare b.subject = .lt at hab
      unfold Statement.compare
      rw [hab]
      rfl
    refine hasc.eq_of_mem_iff (s.ascending.sublist List.filter_sublist) fun st => ?_
    rw [List.mem_filter, List.mem_filter, s.agree]
    rfl

end GraphShapes
