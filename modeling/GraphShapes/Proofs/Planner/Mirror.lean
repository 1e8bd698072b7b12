import GraphShapes.Plan.Meaning
import GraphShapes.Proofs.Planner.Unshared
import Mathlib.Data.List.Forall2

/-!
# Sharing changes nothing that is delivered

A plan made with splitters delivers what the plan with the supplies written out delivers
(`Shape.plan_comes`).

Splitters are only ever allotted behind the ones that exist, so what a reader delivers is settled
when its splitter is allotted and stays so (`delivered_of_extends`). `Plan.Mirrors ss p q` says
that `p`, among the splitters `ss` and whatever is allotted after them, delivers what `q` delivers
by itself, under the same declared layout. `Planning.Comes step ss value R` says that a planning
step that starts with the splitters `ss` comes to the same as a step without state: the same
failure, or results that `R` relates among the splitters that there are then. Its rules
(`Comes.pure`, `Comes.bind`) follow the `do` blocks of the planner line by line.
-/

namespace GraphShapes

/-- Two tests that agree item by item agree on whether some item passes. -/
theorem any_eq_of_forall₂ {α β : Type} {f : α → Bool} {g : β → Bool} {as : List α} {bs : List β}
    (h : List.Forall₂ (fun a b => f a = g b) as bs) : as.any f = bs.any g := by
  induction h with
  | nil => rfl
  | cons hab _ ih => rw [List.any_cons, List.any_cons, hab, ih]

/-- Two images of a list correspond item by item if those of every item do. -/
theorem forall₂_map_of_forall_mem {α β γ : Type} {R : β → γ → Prop} {f : α → β} {g : α → γ}
    {as : List α} (h : ∀ a ∈ as, R (f a) (g a)) : List.Forall₂ R (as.map f) (as.map g) :=
  List.forall₂_map_left_iff.2 (List.forall₂_map_right_iff.2 (List.forall₂_same.2 h))

/-- What a plan without readers delivers. -/
def Plan.delivery (p : Plan) : Except OpError RowFeed := p.meaning fun _ => .ok .done

namespace Splitters

/-- The second splitters are the first ones, and more that were allotted after them. -/
inductive Extends (ss : Splitters) : Splitters → Prop where
  | refl : Extends ss ss
  | push {ss' : Splitters} (h : Extends ss ss') (supply : Plan) : Extends ss (ss'.push supply)

/-- What is allotted after what was allotted after the first splitters comes after the first ones.
-/
theorem Extends.trans {ss ss' ss'' : Splitters} (h : Extends ss ss') (h' : Extends ss' ss'') :
    Extends ss ss'' := by
  induction h' with
  | refl => exact h
  | push _ supply ih => exact ih.push supply

/-- A new splitter has the meaning of its supply among the splitters before it. -/
theorem meanings_push (ss : Splitters) (supply : Plan) :
    Splitters.meanings (ss.push supply) = (meanings ss).push (supply.feedIn ss) := by
  unfold meanings
  rw [Array.foldl_push]
  rfl

/-- Every splitter has a meaning. -/
theorem size_meanings (ss : Splitters) : (meanings ss).size = ss.size :=
  Array.foldl_induction (fun i (table : Array (Except OpError RowFeed)) => table.size = i) rfl
    fun i table h => by rw [Array.size_push, h]

/-- A splitter delivers what its supply delivered when it was allotted. -/
theorem delivered_push (ss : Splitters) (supply : Plan) :
    delivered (meanings (ss.push supply)) ss.size = supply.feedIn ss := by
  rw [meanings_push, delivered, ← size_meanings ss]
  simp

/-- What a splitter delivers does not change when more are allotted. -/
theorem delivered_of_extends {ss ss' : Splitters} (h : Extends ss ss') {s : SplitterId}
    (hs : s < ss.size) :
    s < ss'.size ∧ delivered (meanings ss') s = delivered (meanings ss) s := by
  induction h with
  | refl => exact ⟨hs, rfl⟩
  | @push ss' _ supply ih =>
    refine ⟨by rw [Array.size_push]; exact Nat.lt_succ_of_lt ih.1, ?_⟩
    rw [← ih.2, meanings_push, delivered, delivered, Array.getD_eq_getD_getElem?,
      Array.getD_eq_getD_getElem?, Array.getElem?_push_lt (by rw [size_meanings]; exact ih.1),
      Array.getElem?_eq_getElem]

end Splitters

namespace Plan

/-- Among the splitters, and any that are allotted later, the first plan delivers what the second
delivers by itself. -/
structure Mirrors (ss : Splitters) (p q : Plan) : Prop where
  layout : p.layout = q.layout
  feed : ∀ {ss' : Splitters}, ss.Extends ss' → p.feedIn ss' = q.delivery

namespace Mirrors

variable {ss ss' : Splitters} {p q p' q' : Plan}

/-- What holds among some splitters holds when more are allotted. -/
theorem mono (h : Mirrors ss p q) (hext : ss.Extends ss') : Mirrors ss' p q :=
  ⟨h.layout, fun h' => h.feed (hext.trans h')⟩

/-- A reader of a new splitter mirrors what the supply mirrors. -/
theorem reader (h : Mirrors ss p q) :
    Mirrors (ss.push p) (.reader ss.size p.layout) q := by
  refine ⟨h.layout, fun hext => ?_⟩
  have hd := (Splitters.delivered_of_extends hext (s := ss.size) (by simp)).2
  rw [Splitters.delivered_push, h.feed .refl] at hd
  exact hd

/-- The same with what the splitters deliver written out. -/
theorem meaning_eq (h : Mirrors ss p q) (hext : ss.Extends ss') :
    p.meaning (Splitters.delivered ss'.meanings) = q.meaning fun _ => .ok .done :=
  h.feed hext

/-- A scan reads no splitter. -/
theorem targetScan (scan : TargetScan) : Mirrors ss (.targetScan scan) (.targetScan scan) :=
  ⟨rfl, fun _ => rfl⟩

/-- Looking up values, wherever the targets come from. -/
theorem valuesOf (h : Mirrors ss p q) (source : Source) (path : Option Path) :
    Mirrors ss (.valuesOf p source path) (.valuesOf q source path) :=
  ⟨rfl, fun hext => by
    rw [feedIn, delivery, meaning, meaning, h.meaning_eq hext]⟩

/-- Testing values, wherever the targets and the values come from. -/
theorem countValues (h : Mirrors ss p q) (h' : Mirrors ss p' q') (label : String)
    (test : List Term → Bool) :
    Mirrors ss (.countValues p p' label test) (.countValues q q' label test) :=
  ⟨rfl, fun hext => by
    rw [feedIn, delivery, meaning, meaning, h.meaning_eq hext, h'.meaning_eq hext]⟩

theorem filter (h : Mirrors ss p q) (label : String) (keep : Row → Bool) :
    Mirrors ss (.filter p label keep) (.filter q label keep) :=
  ⟨h.layout, fun hext => by
    rw [feedIn, delivery, meaning, meaning, h.meaning_eq hext]⟩

theorem trim (h : Mirrors ss p q) (width : Nat) : Mirrors ss (.trim p width) (.trim q width) :=
  ⟨by rw [Plan.layout, Plan.layout, h.layout], fun hext => by
    rw [feedIn, delivery, meaning, meaning, h.meaning_eq hext]⟩

theorem sort (h : Mirrors ss p q) : Mirrors ss (.sort p) (.sort q) :=
  ⟨h.layout, fun hext => by
    rw [feedIn, delivery, meaning, meaning, h.meaning_eq hext]⟩

theorem unique (h : Mirrors ss p q) (width : Option Nat) :
    Mirrors ss (.unique p width) (.unique q width) :=
  ⟨h.layout, fun hext => by
    rw [feedIn, delivery, meaning, meaning, h.meaning_eq hext]⟩

/-- The distinct targets of plans that mirror each other do so too. -/
theorem distinctTargets (h : Mirrors ss p q) : Mirrors ss p.distinctTargets q.distinctTargets :=
  (h.trim _).unique none

theorem tag (h : Mirrors ss p q) (shape : ShapeId) : Mirrors ss (.tag p shape) (.tag q shape) :=
  ⟨h.layout, fun hext => by
    rw [feedIn, delivery, meaning, meaning, h.meaning_eq hext]⟩

theorem relabel (h : Mirrors ss p q) (layout : Layout) :
    Mirrors ss (.relabel p layout) (.relabel q layout) :=
  ⟨rfl, fun hext => by
    rw [feedIn, delivery, meaning_relabel, meaning_relabel, h.meaning_eq hext]⟩

/-- An equality join mirrors the join of what its inputs mirror. -/
theorem equalsJoin (h : Mirrors ss p q) (h' : Mirrors ss p' q') (allColumns : Bool) :
    Mirrors ss (.equalsJoin p p' allColumns) (.equalsJoin q q' allColumns) :=
  ⟨h.layout, fun hext => by
    rw [feedIn, delivery, meaning, meaning, h.meaning_eq hext, h'.meaning_eq hext]⟩

/-- So does an inner join. -/
theorem innerJoin (h : Mirrors ss p q) (h' : Mirrors ss p' q') :
    Mirrors ss (.innerJoin p p') (.innerJoin q q') :=
  ⟨rfl, fun hext => by
    rw [feedIn, delivery, meaning, meaning, h.meaning_eq hext, h'.meaning_eq hext]⟩

/-- So does an anti join. -/
theorem antiJoin (h : Mirrors ss p q) (h' : Mirrors ss p' q') :
    Mirrors ss (.antiJoin p p') (.antiJoin q q') :=
  ⟨h.layout, fun hext => by
    rw [feedIn, delivery, meaning, meaning, h.meaning_eq hext, h'.meaning_eq hext]⟩

/-- Lists of plans of which each mirrors its counterpart. -/
abbrev All (ss : Splitters) : List Plan → List Plan → Prop := List.Forall₂ (Mirrors ss)

variable {ps qs : List Plan}

/-- What is made of each plan in the same way. -/
theorem All.map {f g : Plan → Plan} (hfg : ∀ p q, Mirrors ss p q → Mirrors ss (f p) (g q)) :
    ∀ {ps qs : List Plan}, All ss ps qs → All ss (ps.map f) (qs.map g)
  | _, _, .nil => .nil
  | _, _, .cons h hs => .cons (hfg _ _ h) (All.map hfg hs)

/-- Plans that mirror others declare the same layouts. -/
theorem All.layouts : ∀ {ps qs : List Plan}, All ss ps qs →
    ps.map Plan.layout = qs.map Plan.layout
  | _, _, .nil => rfl
  | _, _, .cons h hs => by rw [List.map_cons, List.map_cons, h.layout, All.layouts hs]

/-- Plans that mirror others mean the same, one by one. -/
theorem All.meanings_eq (hext : ss.Extends ss') {ps qs : List Plan} (hall : All ss ps qs) :
    meanings (Splitters.delivered ss'.meanings) ps = meanings (fun _ => .ok .done) qs := by
  induction hall with
  | nil => rfl
  | cons h _ ih => rw [meanings, meanings, h.meaning_eq hext, ih]

/-- A union mirrors the union of what its inputs mirror. -/
theorem union (h : All ss ps qs) : Mirrors ss (.union ps) (.union qs) := by
  refine ⟨?_, fun hext => by rw [feedIn, delivery, meaning, meaning, All.meanings_eq hext h]⟩
  cases h with
  | nil => rfl
  | cons h _ => exact h.layout

end Mirrors

end Plan

/-! ## Planning steps that come to the same -/

namespace Planning

variable {α β γ δ : Type}

/-- Started with the splitters `ss`, the step comes to the same as a step without state: to the
same failure, or to results that `R` relates among the splitters that there are then. -/
def Comes (step : Planning α) (ss : Splitters) (value : Except PlanError β)
    (R : Splitters → α → β → Prop) : Prop :=
  ∀ d : Draft, d.splitters = ss → ∃ d' : Draft, ss.Extends d'.splitters ∧
    ((∃ e, step d = (.error e, d') ∧ value = .error e) ∨
      ∃ a b, step d = (.ok a, d') ∧ value = .ok b ∧ R d'.splitters a b)

variable {ss : Splitters} {R : Splitters → α → β → Prop} {R' : Splitters → γ → δ → Prop}

/-- A step that only answers comes to an answer that is related. -/
theorem Comes.pure {a : α} {b : β} (h : R ss a b) : Comes (pure a) ss (.ok b) R := by
  intro d hd
  exact ⟨d, hd ▸ .refl, .inr ⟨a, b, rfl, rfl, hd.symm ▸ h⟩⟩

/-- A step that fails comes to the same failure. -/
theorem Comes.throw (e : PlanError) : Comes (throw e : Planning α) ss (.error e) R := by
  intro d hd
  exact ⟨d, hd ▸ .refl, .inl ⟨e, rfl, rfl⟩⟩

/-- One step after the other: what the second does may depend on what the first came to. -/
theorem Comes.bind {step : Planning α} {value : Except PlanError β} {f : α → Planning γ}
    {g : β → Except PlanError δ} (h : Comes step ss value R)
    (hf : ∀ {ss'} {a b}, ss.Extends ss' → R ss' a b → Comes (f a) ss' (g b) R') :
    Comes (step >>= f) ss (value >>= g) R' := by
  intro d hd
  obtain ⟨d', hext, ⟨e, hs, rfl⟩ | ⟨a, b, hs, rfl, hR⟩⟩ := h d hd
  · refine ⟨d', hext, .inl ⟨e, ?_, rfl⟩⟩
    show (match step d with | (a, d') => ExceptT.bindCont f a d') = _
    rw [hs]
    rfl
  · obtain ⟨d'', hext', hf'⟩ := hf hext hR d' rfl
    have hstep : (step >>= f) d = f a d' := by
      show (match step d with | (a, d') => ExceptT.bindCont f a d') = _
      rw [hs]
      rfl
    rw [hstep]
    exact ⟨d'', hext.trans hext', hf'⟩

/-- After a failure it does not matter what would have followed. -/
theorem Comes.throw_bind (e : PlanError) {f : α → Planning γ} {g : β → Except PlanError δ} :
    Comes (MonadExcept.throw e >>= f) ss (.error e >>= g) R' :=
  (Comes.throw (R := fun _ _ _ => False) e).bind fun _ hf => hf.elim

/-- A question to the data layer is answered, or refused, on both sides. -/
theorem comes_ofError (x : Except Error α) :
    Comes (ofError x) ss (Unshared.ofError x) fun _ a b => a = b := by
  cases x with
  | error e => exact Comes.throw _
  | ok a => exact Comes.pure rfl

/-- Allotting a splitter: its readers mirror what the supply mirrors. -/
theorem comes_share {p q : Plan} (h : p.Mirrors ss q) :
    Comes (share p) ss (.ok q) fun ss' s q => Plan.Mirrors ss' (.reader s p.layout) q := by
  intro d hd
  subst hd
  exact ⟨{ d with splitters := d.splitters.push p }, Splitters.Extends.refl.push p,
    .inr ⟨d.splitters.size, q, rfl, rfl, h.reader⟩⟩

/-- Reporting a plan allots nothing and comes to nothing. -/
theorem comes_report (ctx : Context) (shape : Shape) (p : Plan) :
    Comes (report ctx shape p) ss (.ok ()) fun _ _ _ => True := by
  intro d hd
  unfold report
  split
  · exact ⟨_, hd ▸ .refl, .inr ⟨(), (), rfl, rfl, trivial⟩⟩
  · exact ⟨d, hd ▸ .refl, .inr ⟨(), (), rfl, rfl, trivial⟩⟩

end Planning

/-- Whenever it is asked from now on, the provider hands out what the supply stands for. -/
def Provider.Mirrors (ss : Splitters) (provider : Provider) (given : Offer) : Prop :=
  ∀ {ss' : Splitters}, ss.Extends ss' →
    Planning.Comes provider.request ss' (Unshared.ofOp given) Plan.Mirrors

/-- A provider hands out the same when more splitters are allotted. -/
theorem Provider.Mirrors.mono {ss ss' : Splitters} {provider : Provider} {given : Offer}
    (h : provider.Mirrors ss given) (hext : ss.Extends ss') : provider.Mirrors ss' given :=
  fun h' => h (hext.trans h')

end GraphShapes
