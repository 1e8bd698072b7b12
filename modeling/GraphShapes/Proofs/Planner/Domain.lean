import GraphShapes.Proofs.Plan.Reads
import GraphShapes.Proofs.Planner.Collect
import GraphShapes.Proofs.Planner.Inherited

/-!
# The domain of a shape

The domain of a shape tree is planned as a union of scans. Its violations are planned by combining
leaves in many ways: joins, candidates of disjunctions, members left out. Both are compared with a
third thing. A shape `LooksAt` a target if it has a leaf, not switched off, at which the pass sees
the target. The domain brings exactly the targets that the shape looks at (`domain_picks`), each of
them once, and whatever is found of the shape or of its negation is about such targets
(`looksAt_of_collect`).
-/

namespace GraphShapes

/-- A property of the target is inherited. -/
theorem Row.inherited_target (Q : Term → Prop) : Row.Inherited fun r => Q r.target where
  columns _ h := h
  afresh h := h
  absorb h _ := h

namespace Shape

/-! ## Looking at targets -/

/-- The shape has a leaf that is not switched off, and the pass sees the target there. -/
def LooksAt (view : View) (s : Shape) (path : Option Path) (t : Term) : Prop :=
  ∃ p c, s.HasLeaf path p c ∧ t ∈ view.targets p

section LooksAt

variable {view : View} {h : ShapeHead} {path : Option Path} {t : Term}

/-- What is switched off looks at nothing. -/
theorem not_looksAt_of_deactivated {s : Shape} (hd : s.deactivated = true) :
    ¬s.LooksAt view path t := by
  intro hex
  obtain ⟨p, c, hl, -⟩ := hex
  rw [hl.active] at hd
  cases hd

variable (hd : h.deactivated = false)
include hd

/-- A constraint looks at what the pass sees where it stands. -/
theorem looksAt_constraint_iff {c : Constraint} :
    (constraint h c).LooksAt view path t ↔ t ∈ view.targets (h.path.or path) := by
  constructor
  · intro hex
    obtain ⟨p, c, ⟨⟩, ht⟩ := hex
    exact ht
  · exact fun ht => ⟨_, c, .constraint hd, ht⟩

/-- A conjunction looks at what its members look at. -/
theorem looksAt_conj_iff {ms : List Shape} :
    (conj h ms).LooksAt view path t ↔ ∃ m ∈ ms, m.LooksAt view (h.path.or path) t := by
  constructor
  · intro hex
    obtain ⟨p, c, hl, ht⟩ := hex
    cases hl with
    | conj _ hm hl => exact ⟨_, hm, p, c, hl, ht⟩
  · intro hex
    obtain ⟨m, hm, p, c, hl, ht⟩ := hex
    exact ⟨p, c, .conj hd hm hl, ht⟩

/-- A disjunction looks at what the members of its branches look at. -/
theorem looksAt_disj_iff {bs : List (List Shape)} :
    (disj h bs).LooksAt view path t ↔ ∃ m ∈ bs.flatten, m.LooksAt view (h.path.or path) t := by
  constructor
  · intro hex
    obtain ⟨p, c, hl, ht⟩ := hex
    cases hl with
    | disj _ hb hm hl => exact ⟨_, List.mem_flatten.2 ⟨_, hb, hm⟩, p, c, hl, ht⟩
  · intro hex
    obtain ⟨m, hm, p, c, hl, ht⟩ := hex
    obtain ⟨b, hb, hm⟩ := List.mem_flatten.1 hm
    exact ⟨p, c, .disj hd hb hm hl, ht⟩

/-- A negation looks at what the negated shape looks at. -/
theorem looksAt_neg_iff {inner : Shape} :
    (neg h inner).LooksAt view path t ↔ inner.LooksAt view (h.path.or path) t := by
  constructor
  · intro hex
    obtain ⟨p, c, hl, ht⟩ := hex
    cases hl with
    | neg _ hl => exact ⟨p, c, hl, ht⟩
  · intro hex
    obtain ⟨p, c, hl, ht⟩ := hex
    exact ⟨p, c, .neg hd hl, ht⟩

end LooksAt

end Shape

/-! ## Plans for targets -/

namespace Plan

variable {p : Plan} {Q Q' : Term → Prop}

/-- The plan reads no splitter and delivers the targets with the property, each of them once. -/
structure Picks (p : Plan) (Q : Term → Prop) : Prop where
  layout : p.layout = .aggregated
  reads : p.readSplitters = []
  delivers : ∃ T : Finset Term, p.Delivers (targetLines T) ∧ ∀ t, t ∈ T ↔ Q t

/-- The targets that a plan picks may be described in another way. -/
theorem Picks.congr (h : p.Picks Q) (hQ : ∀ t, Q t ↔ Q' t) : p.Picks Q' := by
  obtain ⟨T, hdelivers, hT⟩ := h.delivers
  exact ⟨h.layout, h.reads, T, hdelivers, fun t => (hT t).trans (hQ t)⟩

theorem picks_empty : (Plan.empty .aggregated).Picks fun _ => False :=
  ⟨rfl, rfl, ∅, ⟨[], rfl, .nil, rfl⟩, fun t => iff_of_false (Finset.notMem_empty t) id⟩

/-- Reading the plan to the end brings the targets, strictly ascending and without other columns. -/
theorem Picks.exists_rows (h : p.Picks Q) : ∃ rows, p.Brings #[] rows ∧
    (∀ r ∈ rows, r.line = [r.target]) ∧
    (rows.Pairwise fun a b => a.target.compare b.target = .lt) ∧
    ∀ t, t ∈ rows.map Row.target ↔ Q t := by
  obtain ⟨T, ⟨rows, hlists, hstrict, hlines⟩, hT⟩ := h.delivers
  have hline : ∀ r ∈ rows, r.line = [r.target] := fun r hr => (Row.line_of_mem hlines hr).1
  have hyields : p.Yields #[] rows := hlists
  refine ⟨rows, hyields.brings nofun ?_, hline, pairwise_target hline hstrict,
    fun t => (Row.mem_map_target hlines).trans (hT t)⟩
  rw [h.reads]
  exact nofun

section Several

variable {α : Type} {P : α → Term → Prop} {as : List α} {plans : List Plan}
  (h : List.Forall₂ (fun p a => p.Picks (P a)) plans as)
include h

/-- Domains declare targets only. -/
theorem layout_of_picks : ∀ p ∈ plans, p.layout = .aggregated := by
  induction h with
  | nil => exact nofun
  | cons hp _ ih => exact List.forall_mem_cons.2 ⟨hp.layout, ih⟩

/-- They read no splitters. -/
theorem reads_of_picks : allReadSplitters plans = [] := by
  induction h with
  | nil => rfl
  | cons hp _ ih => rw [allReadSplitters, hp.reads, ih, List.nil_append]

/-- The targets of several domains are those of each together. -/
theorem exists_sets_of_picks : ∃ (sets : List (Finset (List Term))) (T : Finset Term),
    List.Forall₂ Ascends plans sets ∧ sets.foldr (· ∪ ·) ∅ = targetLines T ∧
      ∀ t, t ∈ T ↔ ∃ a ∈ as, P a t := by
  induction h with
  | nil => exact ⟨[], ∅, .nil, rfl, fun t => by simp⟩
  | cons hp _ ih =>
    obtain ⟨T, hdelivers, hT⟩ := hp.delivers
    obtain ⟨sets, T', hall, hsets, hT'⟩ := ih
    refine ⟨targetLines T :: sets, T ∪ T', .cons hdelivers.ascends hall, ?_, fun t => ?_⟩
    · rw [List.foldr_cons, hsets, targetLines, targetLines, targetLines, Finset.image_union]
    · rw [Finset.mem_union, hT, hT', List.exists_mem_cons_iff]

end Several

/-- The distinct rows of a union are the targets of all inputs. -/
theorem picks_union {α : Type} {P : α → Term → Prop} {as : List α} {plans : List Plan}
    (hne : plans ≠ []) (h : List.Forall₂ (fun p a => p.Picks (P a)) plans as) :
    (Plan.unique (.union plans) none).Picks fun t => ∃ a ∈ as, P a t where
  layout := layout_union hne (layout_of_picks h)
  reads := reads_of_picks h
  delivers := by
    obtain ⟨sets, T, hascend, hsets, hT⟩ := exists_sets_of_picks h
    exact ⟨T, hsets ▸ (ascends_union hascend).unique, hT⟩

end Plan

/-- A scan delivers the targets that the pass sees. -/
theorem Context.Reliable.picks_scan {ctx : Context} (hr : ctx.Reliable) (targets : List Target)
    (path : Option Path) :
    (ctx.scan ⟨targets, path⟩).Picks (· ∈ (ctx.view targets hr).targets path) :=
  ⟨rfl, rfl, _, hr.delivers_scan ⟨targets, path⟩, fun _ => Iff.rfl⟩

/-! ## The domain -/

namespace Shape

section Domains

variable {ctx : Context} {frame : Frame}

/-- The domains of two lists of shapes, one after the other. -/
theorem domains_append : ∀ ms ms' : List Shape,
    domains ctx (ms ++ ms') frame =
      do let ds ← domains ctx ms frame; return ds ++ (← domains ctx ms' frame)
  | [], ms' => by
    rw [List.nil_append, domains]
    cases domains ctx ms' frame <;> rfl
  | m :: ms, ms' => by
    rw [List.cons_append, domains, domains, domains_append ms ms']
    cases m.domain ctx frame with
    | error e => rfl
    | ok d =>
      cases domains ctx ms frame with
      | error e => rfl
      | ok ds => cases domains ctx ms' frame <;> rfl

/-- The branches do not matter, only their members. -/
theorem branchDomains_eq : ∀ bs : List (List Shape),
    branchDomains ctx bs frame = domains ctx bs.flatten frame
  | [] => rfl
  | b :: bs => by rw [branchDomains, branchDomains_eq bs, List.flatten_cons, domains_append]

/-- The domains of several shapes, each of which has one. -/
theorem domains_eq_ok {P : Shape → Term → Prop} : ∀ {ms : List Shape},
    (∀ m ∈ ms, ∃ p, m.domain ctx frame = .ok p ∧ p.Picks (P m)) →
      ∃ plans, domains ctx ms frame = .ok plans ∧
        List.Forall₂ (fun p m => p.Picks (P m)) plans ms
  | [], _ => ⟨[], rfl, .nil⟩
  | m :: ms, h => by
    obtain ⟨⟨p, hp, hpicks⟩, hms⟩ := List.forall_mem_cons.1 h
    obtain ⟨plans, hplans, hall⟩ := domains_eq_ok hms
    exact ⟨p :: plans, by rw [domains, hp, hplans]; rfl, .cons hpicks hall⟩

/-- The union of domains picks what one of them picks, also if there is none. -/
theorem joinDomains_eq_ok {α : Type} {P : α → Term → Prop} {as : List α} {plans : List Plan}
    (h : List.Forall₂ (fun p a => p.Picks (P a)) plans as) :
    ∃ p, joinDomains plans = .ok p ∧ p.Picks fun t => ∃ a ∈ as, P a t := by
  cases plans with
  | nil =>
    cases h
    exact ⟨_, rfl, Plan.picks_empty.congr fun t => by simp⟩
  | cons first rest =>
    have hne : first :: rest ≠ [] := List.cons_ne_nil first rest
    refine ⟨_, ?_, Plan.picks_union hne h⟩
    rw [joinDomains, Plan.union?_eq_ok hne (Plan.layout_of_picks h)]
    · rfl
    · exact nofun

/-- The joined domains of several shapes bring what any of them looks at. -/
theorem joinDomains_domains {P : Shape → Term → Prop} {ms : List Shape}
    (h : ∀ m ∈ ms, ∃ p, m.domain ctx frame = .ok p ∧ p.Picks (P m)) :
    ∃ p, (domains ctx ms frame >>= joinDomains) = .ok p ∧ p.Picks fun t => ∃ m ∈ ms, P m t := by
  obtain ⟨plans, hplans, hall⟩ := domains_eq_ok h
  rw [hplans]
  exact joinDomains_eq_ok hall

end Domains

section Reliable

variable {ctx : Context} (hr : ctx.Reliable)
include hr

/-- The domain is planned, and brings what the shape looks at. -/
theorem domain_picks (targets : List Target) (s : Shape) : ∀ path : Option Path,
    ∃ p, s.domain ctx ⟨targets, path⟩ = .ok p ∧
      p.Picks (s.LooksAt (ctx.view targets hr) path) := by
  induction s using active_induction with
  | deactivated s hd =>
    intro path
    refine ⟨.empty .aggregated, ?_, Plan.picks_empty.congr fun t => ?_⟩
    · cases s <;> exact if_pos hd
    · exact iff_of_false not_false (not_looksAt_of_deactivated hd)
  | constraint h c hd =>
    intro path
    rw [domain, hd]
    exact ⟨_, rfl, (hr.picks_scan targets _).congr fun t => (looksAt_constraint_iff hd).symm⟩
  | conj h ms hd ih =>
    intro path
    obtain ⟨p, hp, hpicks⟩ := joinDomains_domains fun m hm => ih m hm (h.path.or path)
    rw [domain, hd]
    exact ⟨p, hp, hpicks.congr fun t => (looksAt_conj_iff hd).symm⟩
  | disj h bs hd ih =>
    intro path
    have ihs : ∀ m ∈ bs.flatten, ∃ p, m.domain ctx ⟨targets, h.path.or path⟩ = .ok p ∧
        p.Picks (m.LooksAt (ctx.view targets hr) (h.path.or path)) := by
      intro m hm
      obtain ⟨b, hb, hm⟩ := List.mem_flatten.1 hm
      exact ih b hb m hm _
    obtain ⟨p, hp, hpicks⟩ := joinDomains_domains ihs
    rw [domain, hd, branchDomains_eq]
    exact ⟨p, hp, hpicks.congr fun t => (looksAt_disj_iff hd).symm⟩
  | neg h inner hd ih =>
    intro path
    obtain ⟨q, hq, hpicks⟩ := ih (h.path.or path)
    have hall : List.Forall₂
        (fun p m => p.Picks (LooksAt (ctx.view targets hr) m (h.path.or path))) [q] [inner] :=
      .cons hpicks .nil
    obtain ⟨p, hp, hpicks⟩ := joinDomains_eq_ok hall
    refine ⟨p, ?_, hpicks.congr fun t => ?_⟩
    · rw [domain, hd]
      show (inner.domain ctx ⟨targets, h.path.or path⟩ >>= fun d => joinDomains [d]) = _
      rw [hq]
      exact hp
    · rw [looksAt_neg_iff hd, List.exists_mem_cons_iff]
      exact or_iff_left (by simp)

/-! ## What is found -/

/-- The scans of the leaves, and so all that is made of them, are about targets that the shape looks
at. -/
theorem kept_looksAt (targets : List Target) (s : Shape) (path : Option Path) :
    Plan.Kept ctx targets (s.HasLeaf path)
      (Plan.Has fun r => s.LooksAt (ctx.view targets hr) path r.target)
      (Plan.Has fun r => s.LooksAt (ctx.view targets hr) path r.target) := by
  refine (Row.inherited_target (s.LooksAt _ path)).kept hr.source (fun p c hl r hmem => ?_)
    fun _ h => h
  obtain ⟨rows, hlists, -, hlines⟩ := hr.delivers_scan ⟨targets, p⟩
  rw [hlists.items_eq] at hmem
  exact ⟨p, c, hl, (Row.line_of_mem hlines hmem).2⟩

/-- Whatever is found of the shape or of its negation is about a target that the shape looks at. -/
theorem looksAt_of_collect {s : Shape} {frame : Frame} {negate : Bool} {draft : Draft}
    {found : List Row} (h : s.collect ctx frame none negate draft = .ok found) :
    ∀ r ∈ found, s.LooksAt (ctx.view frame.targets hr) frame.path r.target := by
  unfold collect at h
  split at h
  · cases h
  · obtain rfl := Except.ok.inj h
    exact List.forall_mem_nil _
  · next plan later hplan =>
    cases hcollect : plan.collect later.splitters with
    | error e => rw [hcollect] at h; cases h
    | ok rows =>
      rw [hcollect] at h
      obtain rfl := Except.ok.inj h
      obtain ⟨q, hq, -, rfl⟩ := exists_items .none hplan hcollect
      exact s.ensures_kept (kept_looksAt hr frame.targets s frame.path) frame.path negate
        (fun _ _ hl => hl) none Unshared.offerHas_none _ hq q rfl

/-- In a bulk pass, a leaf is enough to look at every selected target. -/
theorem looksAt_bulk_iff (hb : ctx.isBulk = true) {s : Shape} {targets : List Target}
    {path : Option Path} {t : Term} : s.LooksAt (ctx.view targets hr) path t ↔
      (∃ p c, s.HasLeaf path p c) ∧ t ∈ ctx.source.store.selection targets := by
  have hview : ∀ p, (ctx.view targets hr).targets p = ctx.source.store.selection targets :=
    fun p => (hr.bulk (Option.isNone_iff_eq_none.1 hb) targets p).1
  unfold LooksAt
  simp only [hview, exists_and_right]

end Reliable

/-- The domain of a well-formed shape comes without a failure and covers every violator. In a bulk
pass it is everything that is selected, unless the whole shape is switched off. -/
theorem domain_covers {ctx : Context} (hr : ctx.Reliable) {s : Shape} (hw : s.wellFormed = true)
    (frame : Frame) :
    ∃ plan rows, s.domain ctx frame = .ok plan ∧ plan.Brings #[] rows ∧
      (∀ r ∈ rows, r.line = [r.target]) ∧
      (rows.Pairwise fun a b => a.target.compare b.target = .lt) ∧
      (∀ negate draft, ∃ found, s.collect ctx frame none negate draft = .ok found ∧
        ∀ r ∈ found, r.target ∈ rows.map Row.target) ∧
      (ctx.isBulk = true →
        ((∃ p c, s.HasLeaf frame.path p c) →
          (rows.map Row.target).toFinset = ctx.source.store.selection frame.targets) ∧
        ((¬∃ p c, s.HasLeaf frame.path p c) → rows = [])) := by
  obtain ⟨plan, hplan, hpicks⟩ := domain_picks hr frame.targets s frame.path
  obtain ⟨rows, hbrings, hline, hpairwise, hmem⟩ := hpicks.exists_rows
  refine ⟨plan, rows, hplan, hbrings, hline, hpairwise, fun negate draft => ?_, fun hb => ⟨?_, ?_⟩⟩
  · obtain ⟨found, hfound, -⟩ := collect_of_gives .none
      (s.realizes hr frame.targets hw frame.path negate).found
    exact ⟨found, hfound, fun r hrow => (hmem _).2 (looksAt_of_collect hr hfound r hrow)⟩
  · intro hleaf
    ext t
    rw [List.mem_toFinset, hmem, looksAt_bulk_iff hr hb]
    exact and_iff_right hleaf
  · intro hnone
    refine List.eq_nil_iff_forall_not_mem.2 fun r hrow => hnone ?_
    exact ((looksAt_bulk_iff hr hb).1 ((hmem _).1 (List.mem_map_of_mem hrow))).1

/-- A text and a number. -/
def twoSubjects : Store :=
  .ofList [⟨.iri "a", .iri "p", .str "x"⟩, ⟨.iri "b", .iri "p", .int 5⟩]

/-- Only texts are allowed, and a second branch would allow nothing but is switched off. -/
def textOrNothing : Shape :=
  disj { id := ⟨20⟩, path := some (.predicate (.iri "p")) }
    [[constraint { id := ⟨21⟩ } (.datatype .str)],
      [constraint { id := ⟨22⟩, deactivated := true } (.oneOf [])]]

/-- The new number is found, so it is in the domain. A bulk pass looks at the text as well. -/
theorem domain_covers_number :
    let ctx (delta : Option Delta) : Context := { source := .ofStore twoSubjects, delta := delta }
    let number : Delta := ⟨.ofStore (.ofList [⟨.iri "b", .iri "p", .int 5⟩]), .ofStore .empty⟩
    let frame : Frame := ⟨[.subjectsOf (.iri "p")], none⟩
    (∃ plan rows found, textOrNothing.domain (ctx (some number)) frame = .ok plan ∧
      plan.Brings #[] rows ∧ textOrNothing.collect (ctx (some number)) frame none false {} =
        .ok found ∧ .iri "b" ∈ found.map Row.target ∧ .iri "b" ∈ rows.map Row.target) ∧
    ∃ plan rows, textOrNothing.domain (ctx none) frame = .ok plan ∧ plan.Brings #[] rows ∧
      (rows.map Row.target).toFinset = {.iri "a", .iri "b"} := by
  intro ctx number frame
  have hnumber : number.Reliable := ⟨Source.reliable_ofStore _, Source.reliable_ofStore _⟩
  constructor
  · have hr : (ctx (some number)).Reliable :=
      ⟨Source.reliable_ofStore _, fun d hd => Option.some.inj hd ▸ hnumber⟩
    obtain ⟨plan, rows, hplan, hbrings, -, -, hcovers, -⟩ :=
      domain_covers hr (s := textOrNothing) rfl frame
    obtain ⟨found, hfound, hall⟩ := hcovers false {}
    have htargets : (textOrNothing.collect (ctx (some number)) frame none false {}).toOption.map
        (List.map Row.target) = some [.iri "b"] := by decide +kernel
    rw [hfound] at htargets
    have hb : Term.iri "b" ∈ found.map Row.target :=
      Option.some.inj htargets ▸ List.mem_singleton_self _
    obtain ⟨r, hr, hrb⟩ := List.mem_map.1 hb
    exact ⟨plan, rows, found, hplan, hbrings, hfound, hb, hrb ▸ hall r hr⟩
  · have hr : (ctx none).Reliable := ⟨Source.reliable_ofStore _, nofun⟩
    obtain ⟨plan, rows, hplan, hbrings, -, -, -, hbulk⟩ :=
      domain_covers hr (s := textOrNothing) rfl frame
    obtain ⟨hselected, -⟩ := hbulk rfl
    refine ⟨plan, rows, hplan, hbrings, ?_⟩
    rw [hselected ⟨_, _, .disj rfl (List.mem_cons_self ..) (List.mem_cons_self ..)
      (.constraint rfl)⟩]
    decide +kernel

end Shape

end GraphShapes
