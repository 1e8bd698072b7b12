import GraphShapes.Proofs.Shape.Tree
import Mathlib.Data.List.Dedup
import Mathlib.Data.List.Nodup
import Mathlib.Data.List.Pairwise

/-!
# Places in shape trees

`Shape.Place s id above` says that the tree of a shape has a shape with this identifier, below
shapes with the identifiers `above`, innermost first. `Shape.Active` asks besides that none of these
shapes is switched off. Where the identifiers of a tree are distinct, each has one place
(`Place.unique`).

A list of identifiers is a `Trail` if every identifier in it is followed, sooner or later, by those
above it. So once each identifier of a trail is taken where it occurs last, no identifier comes
before one that it is above (`Trail.pairwise_dedup`). `Shape.ids` is the list of all identifiers of
a tree, innermost first, and it is a trail.
-/

namespace GraphShapes

namespace Shape

/-- The tree has a shape with the identifier, below shapes with the listed ones. -/
inductive Place : Shape → ShapeId → List ShapeId → Prop where
  | here (s : Shape) : Place s s.id []
  | inside {s c : Shape} {id : ShapeId} {above : List ShapeId} (hc : c ∈ s.children)
      (h : Place c id above) : Place s id (above ++ [s.id])

/-- The same, and nothing is switched off there or above. -/
inductive Active : Shape → ShapeId → List ShapeId → Prop where
  | here {s : Shape} (hd : s.deactivated = false) : Active s s.id []
  | inside {s c : Shape} {id : ShapeId} {above : List ShapeId} (hd : s.deactivated = false)
      (hc : c ∈ s.children) (h : Active c id above) : Active s id (above ++ [s.id])

theorem Active.place {s : Shape} {id : ShapeId} {above : List ShapeId}
    (h : s.Active id above) : s.Place id above := by
  induction h with
  | here _ => exact .here _
  | inside _ hc _ ih => exact .inside hc ih

/-- A shape with the first identifier is above one with the second. -/
def Over (s : Shape) (a id : ShapeId) : Prop := ∃ above, s.Place id above ∧ a ∈ above

mutual

/-- The identifiers of the tree, innermost first. -/
def ids : Shape → List ShapeId
  | constraint h _ => [h.id]
  | conj h ms => idsOfAll ms ++ [h.id]
  | disj h bs => idsOfBranches bs ++ [h.id]
  | neg h inner => inner.ids ++ [h.id]

/-- The identifiers of several trees. -/
def idsOfAll : List Shape → List ShapeId
  | [] => []
  | s :: rest => s.ids ++ idsOfAll rest

/-- The identifiers of the trees of several branches. -/
def idsOfBranches : List (List Shape) → List ShapeId
  | [] => []
  | b :: rest => idsOfAll b ++ idsOfBranches rest

end

theorem idsOfAll_eq : ∀ ms : List Shape, idsOfAll ms = ms.flatMap ids
  | [] => rfl
  | m :: ms => by rw [idsOfAll, idsOfAll_eq ms, List.flatMap_cons]

theorem idsOfBranches_eq : ∀ bs : List (List Shape), idsOfBranches bs = bs.flatten.flatMap ids
  | [] => rfl
  | b :: bs => by
    rw [idsOfBranches, idsOfBranches_eq bs, idsOfAll_eq, List.flatten_cons, List.flatMap_append]

/-- A shape comes after everything below it. -/
theorem ids_eq (s : Shape) : s.ids = s.children.flatMap ids ++ [s.id] := by
  cases s with
  | constraint h c => rfl
  | conj h ms => rw [ids, idsOfAll_eq]; rfl
  | disj h bs => rw [ids, idsOfBranches_eq]; rfl
  | neg h inner =>
    rw [ids]
    show _ = [inner].flatMap ids ++ [h.id]
    rw [List.flatMap_singleton]

/-- Induction over a shape tree, whatever the shapes below a shape are to it. -/
theorem children_induction {P : Shape → Prop} (h : ∀ s, (∀ c ∈ s.children, P c) → P s)
    (s : Shape) : P s := by
  induction s using tree_induction with
  | constraint hd c => exact h _ fun _ hc => absurd hc List.not_mem_nil
  | conj hd ms ih => exact h _ ih
  | disj hd bs ih =>
    refine h _ fun c hc => ?_
    obtain ⟨b, hb, hc⟩ := List.mem_flatten.1 hc
    exact ih b hb c hc
  | neg hd inner ih => exact h _ fun c hc => List.mem_singleton.1 hc ▸ ih

theorem Place.mem_ids {s : Shape} {id : ShapeId} {above : List ShapeId}
    (h : s.Place id above) : id ∈ s.ids := by
  induction h with
  | here s =>
    rw [ids_eq]
    exact List.mem_append_right _ (List.mem_singleton_self _)
  | @inside s c id above hc _ ih =>
    rw [ids_eq]
    exact List.mem_append_left _ (List.mem_flatMap.2 ⟨c, hc, ih⟩)

/-- Where identifiers are distinct, each has one place. -/
theorem Place.unique {s : Shape} (hids : s.ids.Nodup) {id : ShapeId}
    {above above' : List ShapeId} (h : s.Place id above) (h' : s.Place id above') :
    above = above' := by
  -- a shape does not have the identifier of one below it
  have htop : ∀ {s c : Shape} {above : List ShapeId}, s.ids.Nodup → c ∈ s.children →
      ¬c.Place s.id above := by
    intro s c above hids hc h
    rw [ids_eq, List.nodup_append] at hids
    exact hids.2.2 s.id (List.mem_flatMap.2 ⟨c, hc, h.mem_ids⟩) s.id (List.mem_singleton_self _) rfl
  induction h generalizing above' with
  | here s =>
    generalize hid : s.id = id at h'
    cases h' with
    | here _ => rfl
    | inside hc h' => exact absurd (hid ▸ h') (htop hids hc)
  | @inside s c id above hc h ih =>
    cases h' with
    | here _ => exact absurd h (htop hids hc)
    | @inside _ c' _ above' hc' h' =>
      have hchildren := hids
      rw [ids_eq, List.nodup_append] at hchildren
      obtain ⟨hnodup, hdisjoint⟩ := List.nodup_flatMap.1 hchildren.1
      -- no two of the shapes below share an identifier
      have hsame : c = c' := by
        by_contra hne
        have : Std.Symm (Function.onFun List.Disjoint ids) := ⟨fun _ _ h => h.symm⟩
        exact hdisjoint.forall hc hc' hne h.mem_ids h'.mem_ids
      subst hsame
      rw [ih (hnodup c hc) h']

end Shape

/-! ## Trails -/

/-- Every identifier of the list is followed by those above it. -/
inductive Trail (above : ShapeId → List ShapeId → Prop) : List ShapeId → Prop where
  | nil : Trail above []
  | cons {id : ShapeId} {ups rest : List ShapeId} (h : above id ups) (hs : ups.Sublist rest)
      (ht : Trail above rest) : Trail above (id :: rest)

namespace Trail

variable {above above' : ShapeId → List ShapeId → Prop} {l l' : List ShapeId}

theorem mono (h : Trail above l) (hle : ∀ id ups, above id ups → above' id ups) :
    Trail above' l := by
  induction h with
  | nil => exact .nil
  | cons h hs _ ih => exact .cons (hle _ _ h) hs ih

theorem append (h : Trail above l) (h' : Trail above l') : Trail above (l ++ l') := by
  induction h with
  | nil => exact h'
  | cons h hs _ ih => exact .cons h (hs.trans (List.sublist_append_left _ _)) ih

theorem exists_above (h : Trail above l) {id : ShapeId} (hid : id ∈ l) : ∃ ups, above id ups := by
  induction h with
  | nil => exact absurd hid List.not_mem_nil
  | cons h _ _ ih =>
    rcases List.mem_cons.1 hid with rfl | hid
    · exact ⟨_, h⟩
    · exact ih hid

/-- What is above an identifier is in the trail behind it. -/
theorem mem_of_above (h : Trail above l) {id a : ShapeId} (hid : id ∈ l)
    (ha : ∀ ups, above id ups → a ∈ ups) : a ∈ l := by
  induction h with
  | nil => exact absurd hid List.not_mem_nil
  | cons h hs _ ih =>
    rcases List.mem_cons.1 hid with rfl | hid
    · exact List.mem_cons_of_mem _ (hs.mem (ha _ h))
    · exact List.mem_cons_of_mem _ (ih hid)

end Trail

/-- Inside a shape, where that shape is still to come: these are above, or these and that shape. -/
def Trail.Inside (above : ShapeId → List ShapeId → Prop) (top : ShapeId) (id : ShapeId)
    (ups : List ShapeId) : Prop :=
  above id ups ∨ above id (ups ++ [top])

/-- A trail inside a shape is one without reserve when the shape comes behind it. -/
theorem Trail.snoc {above : ShapeId → List ShapeId → Prop} {top : ShapeId} {l : List ShapeId}
    (htop : above top []) (h : Trail (Inside above top) l) : Trail above (l ++ [top]) := by
  induction h with
  | nil => exact .cons htop (List.Sublist.refl _) .nil
  | cons h hs _ ih =>
    rcases h with h | h
    · exact .cons h (hs.trans (List.sublist_append_left _ _)) ih
    · exact .cons h (hs.append (List.Sublist.refl _)) ih

namespace Shape

/-- All identifiers of the tree, innermost first, are a trail. -/
theorem trail_ids (s : Shape) : Trail s.Place s.ids := by
  induction s using children_induction with
  | h s ih =>
    have hflat : ∀ {cs : List Shape}, (∀ c ∈ cs, c ∈ s.children) →
        Trail (Trail.Inside s.Place s.id) (cs.flatMap ids) := by
      intro cs
      induction cs with
      | nil => exact fun _ => .nil
      | cons c cs ihcs =>
        intro hcs
        obtain ⟨hc, hcs⟩ := List.forall_mem_cons.1 hcs
        rw [List.flatMap_cons]
        exact ((ih c hc).mono fun id ups h => .inr (.inside hc h)).append (ihcs hcs)
    rw [ids_eq]
    exact Trail.snoc (.here s) (hflat fun _ hc => hc)

end Shape

/-- With each identifier where it occurs last, none comes before one that it is above. -/
theorem Trail.pairwise_dedup {s : Shape} (hids : s.ids.Nodup) {l : List ShapeId}
    (h : Trail s.Place l) : l.dedup.Pairwise fun a id => ¬s.Over a id := by
  induction h with
  | nil => exact .nil
  | @cons a ups rest _ _ ht ih =>
    by_cases ha : a ∈ rest
    · rwa [List.dedup_cons_of_mem ha]
    · rw [List.dedup_cons_of_notMem ha]
      refine .cons (fun id hid hups => ha ?_) ih
      obtain ⟨above, hplace, hmem⟩ := hups
      -- what is above `id` comes behind it
      refine ht.mem_of_above (List.mem_dedup.1 hid) fun ups hups => ?_
      rwa [Shape.Place.unique hids hups hplace]

/-- Innermost first, no identifier of a tree comes before one that it is above. -/
theorem Shape.pairwise_ids {s : Shape} (hids : s.ids.Nodup) :
    s.ids.Pairwise fun a id => ¬s.Over a id := by
  have h := s.trail_ids.pairwise_dedup hids
  rwa [hids.dedup] at h

end GraphShapes
