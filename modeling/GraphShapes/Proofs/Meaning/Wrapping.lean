import GraphShapes.Proofs.Meaning.Rewriting

/-!
# Wrapping a shape

A disjunction of one shape and the negation of its negation say what the shape says, in the logic of
shapes and in what they report alone: planning forwards the shape. Neither sets a path of its own,
though, and so they hide the path that the shape sets (`Wraps.hasOwnPath_eq`).

What encloses them looks no further than its own members. It compares as much as it would compare of
a shape without its own path, and reports no more (`Forwards.refines`); for a shape that sets no
path nothing changes (`Wraps.refines_of_bare`). A disjunction of one shape is forwarded only as it
is. Negated, it is a conjunction of one negated branch, and cuts the lines of a shape with its own
path.
-/

namespace GraphShapes

namespace Shape

/-- A shape, and an active shape without a path of its own that says the same. -/
inductive Wraps : Shape → Shape → Prop where
  /-- A disjunction of nothing else. -/
  | single (id : ShapeId) (s : Shape) : Wraps s (.disj { id := id } [[s]])
  /-- The negation of its negation. -/
  | double (id id' : ShapeId) (s : Shape) : Wraps s (.neg { id := id } (.neg { id := id' } s))

variable {s s' : Shape} {path : Option Path} {negate : Bool}

/-- A wrapper sets no path, whatever the shape sets. -/
theorem Wraps.hasOwnPath_eq (h : Wraps s s') (path : Option Path) :
    s'.hasOwnPath path = false := by
  cases h <;> rfl

theorem Wraps.wellFormed (h : Wraps s s') (hw : s.wellFormed = true) : s'.wellFormed = true := by
  cases h with
  | single id => simp [Shape.wellFormed, branchesWellFormed_eq, hw]
  | double id id' => simp [Shape.wellFormed, hw]

theorem Wraps.alike (h : Wraps s s') : Alike path s s' := by
  cases h with
  | single id =>
    refine ⟨by simp [isLive, anyBranchLive_eq], fun G t => ?_⟩
    cases hl : s.isLive with
    | true => simp [violates, anyBranchLive_eq, violatesEvery_eq, hl]
    | false => simp [violates, anyBranchLive_eq, hl, violates_of_not_isLive hl]
  | double id id' =>
    refine ⟨by simp [isLive], fun G t => ?_⟩
    cases hl : s.isLive with
    | true => simp [violates, isLive, hl]
    | false => simp [violates, isLive, hl, violates_of_not_isLive hl]

/-- A wrapper forwards the plan of the shape as it is, unless it is a negated disjunction. -/
def Forwards (negate : Bool) (s s' : Shape) : Prop :=
  Wraps s s' ∧ (negate = false ∨ ∃ h inner, s' = .neg h inner)

theorem Forwards.rows_eq (h : Forwards negate s s') (G : Store) (T : Finset Term) :
    s'.rows G T path negate = s.rows G T path negate := by
  obtain ⟨hwraps, hforwards⟩ := h
  cases hwraps with
  | single id =>
    rcases hforwards with rfl | ⟨h, inner, heq⟩
    · exact rows_disj rfl G T path [[s]]
    · cases heq
  | double id id' =>
    have hinner : (neg { id := id' } s).rows G T path (!negate) = s.rows G T path (!!negate) :=
      rows_neg rfl G T path (!negate) s
    rw [Bool.not_not] at hinner
    exact (rows_neg rfl G T path negate _).trans hinner

/-- A negated disjunction of one shape is a conjunction of one negated branch. -/
theorem rows_neg_single (id : ShapeId) (s : Shape) (G : Store) (T : Finset Term) :
    (disj { id := id } [[s]]).rows G T path true =
      (s.rows G T path true).map (Table.alone (s.hasOwnPath path)) := by
  have hunite : (disj { id := id } [[s]]).rows G T path true =
      Table.unite [Table.Part.negatedBranch [part G T path true s]] :=
    rows_neg_disj rfl G T path [[s]]
  have hown : (Table.Part.negatedBranch [part G T path true s]).ownPath = s.hasOwnPath path :=
    Bool.or_false _
  rw [hunite, Table.unite_single, hown]
  rfl

/-- A wrapper that forwards the shape reports what the shape reports, and hides its path. -/
theorem Forwards.refines (h : Forwards negate s s') : Refines path negate s' s := by
  refine fun G T => ⟨?_, fun hown => ?_⟩
  · show Table.OptRefines (s'.rows G T path negate) (s.rows G T path negate)
    rw [h.rows_eq]
    exact .refl _
  · have hown : s'.hasOwnPath path = true := hown
    rw [h.1.hasOwnPath_eq] at hown
    cases hown

/-- Around a shape without a path of its own, a wrapper makes no difference. -/
theorem Wraps.refines_of_bare (h : Wraps s s') (hbare : s.hasOwnPath path = false) :
    Refines path negate s' s ∧ Refines path negate s s' := by
  have hown : s'.hasOwnPath path = s.hasOwnPath path := (h.hasOwnPath_eq path).trans hbare.symm
  have hrows : ∀ G T, Table.OptRefines (s'.rows G T path negate) (s.rows G T path negate) ∧
      Table.OptRefines (s.rows G T path negate) (s'.rows G T path negate) := by
    intro G T
    by_cases hf : negate = false ∨ ∃ h inner, s' = .neg h inner
    · rw [Forwards.rows_eq ⟨h, hf⟩]
      exact ⟨.refl _, .refl _⟩
    · cases h with
      | double id id' => exact absurd (.inr ⟨_, _, rfl⟩) hf
      | single id =>
        cases negate with
        | false => exact absurd (.inl rfl) hf
        | true =>
          rw [rows_neg_single, hbare]
          exact ⟨Table.alone_optRefines _, Table.optRefines_alone false _⟩
  exact ⟨fun G T => ⟨(hrows G T).1, fun h => hown.symm.trans h⟩,
    fun G T => ⟨(hrows G T).2, fun h => hown.trans h⟩⟩

end Shape

end GraphShapes
