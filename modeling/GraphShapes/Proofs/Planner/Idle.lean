import GraphShapes.Proofs.Meaning.Refines
import GraphShapes.Proofs.Planner.Collect

/-!
# What a delta cannot bear on

An incremental pass passes over shapes, members of conjunctions and candidate branches that its
delta does not touch. It loses nothing by that (`Shape.untouched_is_idle`): planned all the same, a
shape that is not touched comes to no rows, and a conjunction of which the untouched operands are
left out comes to every row of the whole one. The branches of a disjunction are such conjunctions
when it looks for its candidates.

The columns may differ, because untouched operands take part in the choice of the layout. Without
them a conjunction may keep values and provenance where the whole one keeps targets only, and never
the other way round.
-/

namespace GraphShapes

/-! ## Leaving out what has no lines -/

namespace Table

variable {x : Table} {kept parts : List Part} {layout layout' : Layout} {l : List Term}

/-- The part is kept as it is, or it has no lines and is left out. -/
structure Part.LeftOutIfBare (kept part : Part) : Prop where
  ownPath : kept.ownPath = part.ownPath
  table : kept.table = part.table ∨ kept.table = none ∧ Bare part.table

theorem exists_longer (h : layout = .tripleBased → layout' = .tripleBased)
    (hl : l ∈ x.linesAs layout) : ∃ l' ∈ x.linesAs layout', l <+: l' := by
  cases layout with
  | tripleBased =>
    rw [h rfl]
    exact ⟨l, hl, List.prefix_rfl⟩
  | aggregated =>
    obtain ⟨l', hl', rfl⟩ := Finset.mem_image.1 hl
    cases layout' with
    | tripleBased => exact ⟨l', hl', List.take_prefix 1 l'⟩
    | aggregated => exact ⟨l'.take 1, hl, List.prefix_rfl⟩

theorem exists_shorter (h : layout = .tripleBased → layout' = .tripleBased)
    (hl : l ∈ x.linesAs layout') : ∃ l' ∈ x.linesAs layout, l' <+: l := by
  cases layout with
  | tripleBased =>
    rw [h rfl] at hl
    exact ⟨l, hl, List.prefix_rfl⟩
  | aggregated =>
    cases layout' with
    | tripleBased => exact ⟨l.take 1, Finset.mem_image_of_mem _ hl, List.take_prefix 1 l⟩
    | aggregated => exact ⟨l, hl, List.prefix_rfl⟩

section LeftOut

variable (h : List.Forall₂ Part.LeftOutIfBare kept parts)
include h

/-- Whatever is left out, the rest keeps all columns if the whole does. -/
theorem commonLayout_of_leftOut
    (hl : commonLayout (tablesOf parts) (ownPathOf parts) = .tripleBased) :
    commonLayout (tablesOf kept) (ownPathOf kept) = .tripleBased := by
  rw [commonLayout_eq_tripleBased_iff] at hl ⊢
  obtain ⟨hown, hall⟩ := hl
  constructor
  · refine List.any_eq_false.2 fun k hk hkept => ?_
    obtain ⟨p, hp, hkp⟩ := exists_right_of_mem h hk
    rw [Bool.and_eq_true, hkp.ownPath] at hkept
    rcases hkp.table with htable | ⟨hnone, -⟩
    · exact List.any_eq_false.1 hown p hp
        (Bool.and_eq_true_iff.2 ⟨htable ▸ hkept.1, hkept.2⟩)
    · rw [hnone] at hkept
      exact absurd hkept.1 Bool.false_ne_true
  · intro x hx
    obtain ⟨k, hk, hkx⟩ := mem_tablesOf.1 hx
    obtain ⟨p, hp, hkp⟩ := exists_right_of_mem h hk
    rcases hkp.table with htable | ⟨hnone, -⟩
    · exact hall x (mem_tablesOf.2 ⟨p, hp, htable ▸ hkx⟩)
    · rw [hnone] at hkx
      cases hkx

/-- A line of the whole is the beginning of a line of what is kept. -/
theorem exists_kept_line (hl : HasLine (unite parts) l) :
    ∃ l', HasLine (unite kept) l' ∧ l <+: l' := by
  obtain ⟨p, hp, x, hpx, hlx⟩ := hasLine_unite.1 hl
  obtain ⟨k, hk, hkp⟩ := exists_left_of_mem h hp
  rcases hkp.table with htable | ⟨-, hbare⟩
  · obtain ⟨l', hl', hprefix⟩ := exists_longer (commonLayout_of_leftOut h) hlx
    exact ⟨l', hasLine_unite.2 ⟨k, hk, x, htable.trans hpx, hl'⟩, hprefix⟩
  · -- a part that is left out has no lines
    rw [linesAs_of_empty (hbare x hpx)] at hlx
    exact absurd hlx (Finset.notMem_empty l)

/-- A line of what is kept begins with a line of the whole. -/
theorem exists_whole_line (hl : HasLine (unite kept) l) :
    ∃ l', HasLine (unite parts) l' ∧ l' <+: l := by
  obtain ⟨k, hk, x, hkx, hlx⟩ := hasLine_unite.1 hl
  obtain ⟨p, hp, hkp⟩ := exists_right_of_mem h hk
  rcases hkp.table with htable | ⟨hnone, -⟩
  · obtain ⟨l', hl', hprefix⟩ := exists_shorter (commonLayout_of_leftOut h) hlx
    exact ⟨l', hasLine_unite.2 ⟨p, hp, x, htable ▸ hkx, hl'⟩, hprefix⟩
  · rw [hnone] at hkx
    cases hkx

end LeftOut

end Table

/-! ## Operands -/

namespace Operand

/-- Can the operand be planned? The negation of a branch needs a member. -/
def wellFormed : Operand → Bool
  | shape s _ => s.wellFormed
  | negatedBranch ms => !ms.isEmpty && Shape.allWellFormed ms

/-- What planning has to know of the operand if there are no splitters. -/
def unsharedMember (ctx : Context) : Operand → Unshared.Member
  | shape s negate => s.unsharedMember ctx negate
  | negatedBranch ms => .negatedBranch ctx (Shape.unsharedMembers ctx true ms)

/-- What a pass reports about the operand. -/
def piece (view : View) (path : Option Path) : Operand → Piece
  | shape s negate => s.piece view path negate
  | negatedBranch ms => view.negatedBranch (Shape.pieces view ms path true)

variable {ctx : Context}

theorem member_mirrors (o : Operand) : (o.member ctx).Mirrors (o.unsharedMember ctx) := by
  cases o with
  | shape s negate => exact ⟨fun hgiven => s.plan_comes ctx negate hgiven, rfl, rfl⟩
  | negatedBranch ms =>
    exact Member.negatedBranch_mirrors (Shape.members_mirror true fun m _ => m.plan_comes ctx)

theorem members_mirror (os : List Operand) :
    Member.AllMirror (os.map (member ctx)) (os.map (unsharedMember ctx)) :=
  forall₂_map_of_forall_mem fun o _ => o.member_mirrors

/-- Every operand that can be planned realizes its piece. -/
theorem realizes (hr : ctx.Reliable) (targets : List Target) (path : Option Path) {o : Operand}
    (hw : o.wellFormed = true) :
    (o.unsharedMember ctx).Realizes ctx ⟨targets, path⟩ (o.piece (ctx.view targets hr) path) := by
  cases o with
  | shape s negate => exact s.realizes hr targets hw path negate
  | negatedBranch ms =>
    rw [wellFormed, Bool.and_eq_true, Shape.allWellFormed_iff, Bool.not_eq_true',
      List.isEmpty_eq_false_iff] at hw
    exact Unshared.Member.realizes_negatedBranch hr (Shape.unsharedMembers_ne_nil ctx hw.1 true)
      (Shape.realize_members (fun m hm => m.realizes hr targets (hw.2 m hm)) path true)

/-- A pass reports no line about an operand that its delta does not touch. -/
theorem bare_found {view : View} {path : Option Path} {o : Operand}
    (h : (o.piece view path).touched = false) : Table.Bare (o.piece view path).found := by
  cases o with
  | shape s negate => exact Shape.bare_changes view s path negate (.inl h)
  | negatedBranch ms =>
    have hany : (Shape.pieces view ms path true).any Piece.touched = false := h
    rw [Shape.pieces_eq_map, List.any_map, List.any_eq_false] at hany
    refine View.bare_disjoin (Piece.forall_mem_singletons ?_)
    rw [Shape.pieces_eq_map]
    refine List.forall_mem_map.2 fun m hm => ?_
    exact Shape.bare_changes view m path true (.inl (Bool.eq_false_of_not_eq_true (hany m hm)))

theorem leftOut_if_bare (view : View) (path : Option Path) (os : List Operand) :
    List.Forall₂ Table.Part.LeftOutIfBare
      ((os.map (piece view path)).map Piece.touchedPart)
      ((os.map (piece view path)).map Piece.part) := by
  refine forall₂_map_of_forall_mem (List.forall_mem_map.2 fun o _ => ⟨rfl, ?_⟩)
  show (if (o.piece view path).touched then _ else none) = _ ∨
    (if (o.piece view path).touched then _ else none) = none ∧ _
  cases ht : (o.piece view path).touched with
  | true => exact .inl rfl
  | false => exact .inr ⟨rfl, bare_found ht⟩

/-- What comes of a conjunction without the operands that its delta does not touch, and with them. -/
theorem collect_conjunction (hr : ctx.Reliable) (frame : Frame) (draft : Draft)
    {os : List Operand} (hw : ∀ o ∈ os, o.wellFormed = true) :
    ∃ kept all, (conjunction ctx frame os none).collect draft = .ok kept ∧
      (Member.branch frame (os.map (member ctx)) none).collect draft = .ok all ∧
      Row.lines kept = Table.linesOf (Table.unite
        ((os.map (piece (ctx.view frame.targets hr) frame.path)).map Piece.touchedPart)) ∧
      Row.lines all = Table.linesOf (Table.unite
        ((os.map (piece (ctx.view frame.targets hr) frame.path)).map Piece.part)) := by
  have hrealize : Unshared.Member.AllRealize ctx frame (os.map (unsharedMember ctx))
      (os.map (piece (ctx.view frame.targets hr) frame.path)) :=
    forall₂_map_of_forall_mem fun o ho => realizes hr frame.targets frame.path (hw o ho)
  have hgiven : GivenMirrors draft.splitters none none := .none
  have hmirror : Member.AllMirror (os.map (member ctx)) _ := members_mirror os
  obtain ⟨kept, hkept, -, hkeptLines⟩ := Planning.collect_of_comes
    (Member.comes_conjunction hgiven hmirror) (Unshared.Member.gives_conjunction hrealize)
  have hbranch : Planning.Comes (Member.branch frame (os.map (member ctx)) none)
      draft.splitters _ Plan.OptMirrors := Member.comes_branch hgiven hmirror
  obtain ⟨all, hall, -, hallLines⟩ := Planning.collect_of_comes hbranch
    (Unshared.Member.gives_unite (List.forall₂_map_right_iff.2
      (hrealize.imp fun _ _ hm => hm.planFound)))
  exact ⟨kept, all, hkept, hall, hkeptLines, hallLines⟩

end Operand

/-! ## Skipping loses nothing -/

namespace Shape

/-- What the delta does not touch comes to no rows, and to leave it out of a conjunction loses no
row: every row of the whole is the beginning of one that is kept, and nothing is added. -/
theorem untouched_is_idle {ctx : Context} {after added removed : Store}
    (hsource : ctx.source = .ofStore after)
    (hdelta : ctx.delta = some ⟨.ofStore added, .ofStore removed⟩)
    (hall : ctx.config.validateAll = false) (frame : Frame) (draft : Draft) :
    (∀ (s : Shape) (negate : Bool), s.wellFormed = true →
      s.touched ⟨.ofStore added, .ofStore removed⟩ frame = .ok false →
        s.collect ctx frame none negate draft = .ok []) ∧
    ∀ operands : List Operand, (∀ o ∈ operands, o.wellFormed = true) →
      ∃ kept all, (Operand.conjunction ctx frame operands none).collect draft = .ok kept ∧
        (Member.branch frame (operands.map (Operand.member ctx)) none).collect draft = .ok all ∧
        (∀ r ∈ all, ∃ r' ∈ kept, r.line <+: r'.line) ∧
        ∀ r' ∈ kept, ∃ r ∈ all, r.line <+: r'.line := by
  have hrestriction : ctx.restriction = some ⟨.ofStore added, .ofStore removed⟩ := by
    unfold Context.restriction
    rw [hall, hdelta]
    rfl
  have hr : ctx.Reliable := by
    refine ⟨hsource ▸ Source.reliable_ofStore after, fun delta hd => ?_⟩
    obtain rfl := Option.some.inj (hrestriction.symm.trans hd)
    exact ⟨Source.reliable_ofStore added, Source.reliable_ofStore removed⟩
  have hgiven : GivenMirrors draft.splitters none none := .none
  constructor
  · intro s negate hw ht
    -- the planner's test is that of the view, and a view that sees nothing finds nothing
    have htouches : s.touches (ctx.bears frame.targets) frame.path = false :=
      Except.ok.inj ((hr.touched_eq hrestriction frame.targets s frame.path).symm.trans ht)
    have hbare := bare_changes (ctx.view frame.targets hr) s frame.path negate (.inl htouches)
    obtain ⟨rows, hcollect, -, hlines⟩ := collect_of_gives hgiven
      (s.realizes hr frame.targets hw frame.path negate).found
    have hnone : Row.lines rows = ∅ := hlines.trans hbare.linesOf_eq
    have hnil : rows = [] := by
      refine List.eq_nil_iff_forall_not_mem.2 fun r hrow => ?_
      have hline : r.line ∈ Row.lines rows := Row.mem_lines.2 ⟨r, hrow, rfl⟩
      rw [hnone] at hline
      exact absurd hline (Finset.notMem_empty r.line)
    rw [hcollect, hnil]
  · intro operands hw
    obtain ⟨kept, all, hkept, hcollect, hkeptLines, hallLines⟩ :=
      Operand.collect_conjunction hr frame draft hw
    -- operands that are left out find nothing, with or without the others
    have hleft := Operand.leftOut_if_bare (ctx.view frame.targets hr) frame.path operands
    refine ⟨kept, all, hkept, hcollect, fun r hrow => ?_, fun r hrow => ?_⟩
    · have hline := Table.mem_linesOf.1 (hallLines ▸ Row.mem_lines.2 ⟨r, hrow, rfl⟩)
      obtain ⟨l, hl, hprefix⟩ := Table.exists_kept_line hleft hline
      obtain ⟨r', hr', rfl⟩ := Row.mem_lines.1 (hkeptLines ▸ Table.mem_linesOf.2 hl)
      exact ⟨r', hr', hprefix⟩
    · have hline := Table.mem_linesOf.1 (hkeptLines ▸ Row.mem_lines.2 ⟨r, hrow, rfl⟩)
      obtain ⟨l, hl, hprefix⟩ := Table.exists_whole_line hleft hline
      obtain ⟨r', hr', rfl⟩ := Row.mem_lines.1 (hallLines ▸ Table.mem_linesOf.2 hl)
      exact ⟨r', hr', hprefix⟩

/-- One subject with a text on one path and a number on another one. -/
def textAndNumber : Store :=
  .ofList [⟨.iri "a", .iri "p", .str "x"⟩, ⟨.iri "a", .iri "q", .int 5⟩]

/-- Only numbers on the first path. -/
def numbersOnFirst : Shape :=
  constraint { id := ⟨1⟩, path := some (.predicate (.iri "p")) } (.datatype .int)

/-- Only texts on the path that holds. -/
def textsOnly : Shape := constraint { id := ⟨2⟩ } (.datatype .str)

/-- The number on the second path is new. The text on the first one is no number, but it was there
before, and the pass has nothing to say about it. -/
theorem untouched_is_idle_text :
    let number : Store := .ofList [⟨.iri "a", .iri "q", .int 5⟩]
    let ctx : Context :=
      { source := .ofStore textAndNumber, delta := some ⟨.ofStore number, .ofStore .empty⟩ }
    let frame : Frame := ⟨[.subjectsOf (.iri "p")], some (.predicate (.iri "q"))⟩
    let operands : List Operand := [.shape numbersOnFirst false, .shape textsOnly false]
    Table.Reports (numbersOnFirst.rows textAndNumber (textAndNumber.selection frame.targets)
        frame.path false) (.iri "a") ∧
      numbersOnFirst.touched ⟨.ofStore number, .ofStore .empty⟩ frame = .ok false ∧
      numbersOnFirst.collect ctx frame none false {} = .ok [] ∧
      ∃ kept all, (Operand.conjunction ctx frame operands none).collect {} = .ok kept ∧
        (Member.branch frame (operands.map (Operand.member ctx)) none).collect {} = .ok all ∧
        ∀ r ∈ all, ∃ r' ∈ kept, r.line <+: r'.line := by
  intro number ctx frame operands
  have huntouched : numbersOnFirst.touched ⟨.ofStore number, .ofStore .empty⟩ frame = .ok false :=
    rfl
  obtain ⟨hshape, hoperands⟩ :=
    @untouched_is_idle ctx textAndNumber number .empty rfl rfl rfl frame {}
  obtain ⟨kept, all, hkept, hall, hlines, -⟩ := hoperands operands (by decide)
  exact ⟨⟨_, rfl, Table.mem_targets.1 (by decide)⟩, huntouched,
    hshape numbersOnFirst false rfl huntouched, kept, all, hkept, hall, hlines⟩

/-- The untouched operand has its own path, so without it the value of the other one is kept. -/
example :
    let number : Statement := ⟨.iri "a", .iri "q", .int 5⟩
    let ctx : Context :=
      { source := .ofStore textAndNumber
        delta := some ⟨.ofStore (.ofList [number]), .ofStore .empty⟩ }
    let frame : Frame := ⟨[.subjectsOf (.iri "p")], some (.predicate (.iri "q"))⟩
    let operands : List Operand := [.shape numbersOnFirst false, .shape textsOnly false]
    ((Operand.conjunction ctx frame operands none).collect {}).map (fun rows => rows.map Row.line) =
        .ok [[.iri "a", .int 5, number.quoted]] ∧
      ((Member.branch frame (operands.map (Operand.member ctx)) none).collect {}).map
        (fun rows => rows.map Row.line) = .ok [[.iri "a"]] :=
  ⟨rfl, rfl⟩

end Shape

end GraphShapes
