import GraphShapes.Proofs.Cursor.Remaining
import GraphShapes.Proofs.Cursor.Splitter

/-!
# Sound pools

A pool is sound on some splitters (`Pool.SoundOn`) if each of them keeps the first rows of what it is
said to deliver, its supply delivers the others, and reads only sound splitters with smaller
numbers. The positions of readers lie within what is kept (`Pool.StartedAt`).

What is done with a cursor of such a pool keeps the pool sound and changes no other splitter
(`Pool.Moves`), unless it fails; then only the frame remains (`Pool.Touches`).
-/

namespace GraphShapes

/-! ## What cursors read -/

mutual

/-- The splitters that a cursor reads satisfy a predicate, and so do the positions of its readers.
What a cursor takes over from somebody who has looked ahead has not been seen to be at its end. -/
def Cursor.Reads (R : SplitterId → Prop) (started : SplitterId → Nat → Prop) : Cursor → Prop
  | .rows _ => True
  | .probe .. => True
  | .scan _ => True
  | .reader s position _ => R s ∧ started s position
  | .values targets _ _ _ => targets.Reads R started
  | .filter input _ => input.Reads R started
  | .mapped input _ => input.Reads R started
  | .unique input _ _ => input.Reads R started
  | .unsorted plan => ∀ s ∈ plan.readSplitters, R s
  | .sorting input _ => input.Reads R started
  | .union inputs => Lookahead.AllRead R started inputs
  | .merge _ left right _ _ => left.Reads R started ∧ right.Reads R started
  | .ahead input => input.head ≠ .ended ∧ input.Reads R started

def Lookahead.Reads (R : SplitterId → Prop) (started : SplitterId → Nat → Prop) :
    Lookahead → Prop
  | .mk inner _ => inner.Reads R started

def Lookahead.AllRead (R : SplitterId → Prop) (started : SplitterId → Nat → Prop) :
    List Lookahead → Prop
  | [] => True
  | l :: rest => l.Reads R started ∧ Lookahead.AllRead R started rest

end

section Reads

variable {R R' : SplitterId → Prop} {started started' : SplitterId → Nat → Prop}

mutual

/-- The splitters that a cursor reads may be described more narrowly, and the positions anew. -/
theorem Cursor.Reads.restrict
    (hstarted : ∀ s position, started s position → started' s position) :
    ∀ c : Cursor, c.Reads R started → (∀ s ∈ c.readSplitters, R s → R' s) → c.Reads R' started'
  | .rows _, _, _ => trivial
  | .probe .., _, _ => trivial
  | .scan _, _, _ => trivial
  | .reader s position _, h, hR => ⟨hR s (List.mem_singleton_self s) h.1, hstarted s position h.2⟩
  | .values targets _ _ _, h, hR => Cursor.Reads.restrict hstarted targets h hR
  | .filter input _, h, hR => Cursor.Reads.restrict hstarted input h hR
  | .mapped input _, h, hR => Cursor.Reads.restrict hstarted input h hR
  | .unique input _ _, h, hR => Cursor.Reads.restrict hstarted input h hR
  | .unsorted _, h, hR => fun s hs => hR s hs (h s hs)
  | .sorting input _, h, hR => Cursor.Reads.restrict hstarted input h hR
  | .union inputs, h, hR => Lookahead.AllRead.restrict hstarted inputs h hR
  | .merge _ left right _ _, h, hR =>
    ⟨Lookahead.Reads.restrict hstarted left h.1 fun s hs => hR s (List.mem_append_left _ hs),
      Lookahead.Reads.restrict hstarted right h.2 fun s hs => hR s (List.mem_append_right _ hs)⟩
  | .ahead input, h, hR => ⟨h.1, Lookahead.Reads.restrict hstarted input h.2 hR⟩

/-- The same for an input, which reads what its cursor reads. -/
theorem Lookahead.Reads.restrict
    (hstarted : ∀ s position, started s position → started' s position) :
    ∀ l : Lookahead, l.Reads R started → (∀ s ∈ l.readSplitters, R s → R' s) →
      l.Reads R' started'
  | .mk inner _, h, hR => Cursor.Reads.restrict hstarted inner h hR

/-- The same for the inputs of a union. -/
theorem Lookahead.AllRead.restrict
    (hstarted : ∀ s position, started s position → started' s position) :
    ∀ ls : List Lookahead, Lookahead.AllRead R started ls →
      (∀ s ∈ Lookahead.allReadSplitters ls, R s → R' s) → Lookahead.AllRead R' started' ls
  | [], _, _ => trivial
  | l :: rest, h, hR =>
    ⟨Lookahead.Reads.restrict hstarted l h.1 fun s hs => hR s (List.mem_append_left _ hs),
      Lookahead.AllRead.restrict hstarted rest h.2 fun s hs => hR s (List.mem_append_right _ hs)⟩

end

/-- The positions may be described anew. -/
theorem Cursor.Reads.grow {c : Cursor} (h : c.Reads R started)
    (hstarted : ∀ s position, started s position → started' s position) : c.Reads R started' :=
  Cursor.Reads.restrict hstarted c h fun _ _ hs => hs

/-- Splitters that keep more rows do not put readers out of place. -/
theorem Lookahead.Reads.grow {l : Lookahead} (h : l.Reads R started)
    (hstarted : ∀ s position, started s position → started' s position) : l.Reads R started' :=
  Lookahead.Reads.restrict hstarted l h fun _ _ hs => hs

/-- The same for the inputs of a union. -/
theorem Lookahead.AllRead.grow {ls : List Lookahead} (h : Lookahead.AllRead R started ls)
    (hstarted : ∀ s position, started s position → started' s position) :
    Lookahead.AllRead R started' ls :=
  Lookahead.AllRead.restrict hstarted ls h fun _ _ hs => hs

end Reads

/-! ## Sound pools -/

namespace Pool

/-- The supply of a splitter has been opened, and so many rows have been kept at least. -/
def StartedAt (pool : Pool) (s : SplitterId) (position : Nat) : Prop :=
  ∃ splitter, pool.splitters[s]? = some splitter ∧ (∀ plan, splitter.supply ≠ .waiting plan) ∧
    position ≤ splitter.cache.size

end Pool

/-- A splitter is sound if it delivers what it is said to deliver, of which it keeps the first rows,
and reads splitters that satisfy a predicate and have smaller numbers. -/
def Splitter.Sound (around : Surroundings) (R : SplitterId → Prop) (pool : Pool) (s : SplitterId)
    (splitter : Splitter) : Prop :=
  match splitter.supply with
  | .waiting plan =>
    splitter.cache.size = 0 ∧ around.delivered s = plan.meaning around.delivered ∧
      ∀ t ∈ plan.readSplitters, R t ∧ t < s
  | _ => ∃ feed, around.delivered s = .ok feed ∧
    splitter.Keeps (fun c rest => c.feed around = rest ∧
      c.Reads (fun t => R t ∧ t < s) pool.StartedAt) feed splitter.cache.size

namespace Pool

/-- All splitters that satisfy a predicate are there and sound. -/
def SoundOn (around : Surroundings) (R : SplitterId → Prop) (pool : Pool) : Prop :=
  ∀ s, R s → ∃ splitter, pool.splitters[s]? = some splitter ∧ splitter.Sound around R pool s

/-- Only splitters that satisfy a predicate have changed. -/
structure Touches (R : SplitterId → Prop) (pool pool' : Pool) : Prop where
  others : ∀ s, ¬ R s → pool'.splitters[s]? = pool.splitters[s]?
  size : pool'.splitters.size = pool.splitters.size
  budget : pool'.budget = pool.budget

/-- Only splitters that satisfy a predicate have changed, they are sound, and keep what they kept. -/
structure Moves (around : Surroundings) (R : SplitterId → Prop) (pool pool' : Pool) : Prop
    extends Touches R pool pool' where
  sound : pool'.SoundOn around R
  grows : ∀ s position, pool.StartedAt s position → pool'.StartedAt s position

section

variable {around : Surroundings} {R R' : SplitterId → Prop} {pool pool' pool'' : Pool}

theorem Touches.refl (R : SplitterId → Prop) (pool : Pool) : Touches R pool pool :=
  ⟨fun _ _ => rfl, rfl, rfl⟩

/-- What is touched by neither of two runs is not touched. -/
theorem Touches.trans (h : Touches R pool pool') (h' : Touches R pool' pool'') :
    Touches R pool pool'' where
  others s hs := (h'.others s hs).trans (h.others s hs)
  size := h'.size.trans h.size
  budget := h'.budget.trans h.budget

/-- A run may be said to touch more than it does. -/
theorem Touches.mono (h : Touches R pool pool') (hR : ∀ s, R s → R' s) : Touches R' pool pool' where
  others s hs := h.others s fun hs' => hs (hR s hs')
  size := h.size
  budget := h.budget

/-- Closing touches no splitter. -/
theorem Closes.touches (h : pool.Closes pool') (R : SplitterId → Prop) : Touches R pool pool' where
  others s _ := by rw [h.splitters]
  size := by rw [h.splitters]
  budget := h.budget

theorem Touches.record (R : SplitterId → Prop) (pool : Pool) (event : Event) :
    Touches R pool (pool.record event) := ⟨fun _ _ => rfl, rfl, rfl⟩

/-- A change touches the splitter that is changed. -/
theorem Touches.change (R : SplitterId → Prop) (pool : Pool) {s : SplitterId} (hs : R s)
    (f : Splitter → Splitter) : Touches R pool (pool.change s f) where
  others t ht := by
    have hst : s ≠ t := fun heq => ht (heq ▸ hs)
    rw [getElem?_change, if_neg hst]
  size := Array.size_modify
  budget := rfl

/-- The place of a reader depends on its splitter only. -/
theorem StartedAt.of_splitters {s : SplitterId} {position : Nat} (h : pool.StartedAt s position)
    (hsame : pool'.splitters[s]? = pool.splitters[s]?) : pool'.StartedAt s position := by
  obtain ⟨splitter, hs, hstarted⟩ := h
  exact ⟨splitter, hsame.trans hs, hstarted⟩

end

end Pool

/-- Soundness of a splitter depends on the pool only by the positions that readers may have. -/
theorem Splitter.Sound.grow {around : Surroundings} {R R' : SplitterId → Prop} {pool pool' : Pool}
    {s : SplitterId} {splitter : Splitter} (h : splitter.Sound around R pool s)
    (hR : ∀ t ∈ splitter.supply.readSplitters, R t → t < s → R' t)
    (hgrows : ∀ t position, pool.StartedAt t position → pool'.StartedAt t position) :
    splitter.Sound around R' pool' s := by
  unfold Splitter.Sound at h ⊢
  cases hsupply : splitter.supply with
  | waiting plan =>
    simp only [hsupply] at h hR ⊢
    exact ⟨h.1, h.2.1, fun t ht => ⟨hR t ht (h.2.2 t ht).1 (h.2.2 t ht).2, (h.2.2 t ht).2⟩⟩
  | opened c =>
    simp only [hsupply] at h hR ⊢
    obtain ⟨feed, hfeed, hkeeps⟩ := h
    refine ⟨feed, hfeed, hkeeps.size, hkeeps.kept, ?_⟩
    have hstands := hkeeps.supply
    simp only [hsupply] at hstands ⊢
    exact ⟨hstands.1, Cursor.Reads.restrict hgrows c hstands.2
      fun t ht hRt => ⟨hR t ht hRt.1 hRt.2, hRt.2⟩⟩
  | ended =>
    simp only [hsupply] at h ⊢
    obtain ⟨feed, hfeed, hkeeps⟩ := h
    refine ⟨feed, hfeed, hkeeps.size, hkeeps.kept, ?_⟩
    simpa only [hsupply] using hkeeps.supply
  | failed e =>
    simp only [hsupply] at h ⊢
    obtain ⟨feed, hfeed, hkeeps⟩ := h
    refine ⟨feed, hfeed, hkeeps.size, hkeeps.kept, ?_⟩
    simpa only [hsupply] using hkeeps.supply

namespace Pool

variable {around : Surroundings} {R R' : SplitterId → Prop} {pool pool' pool'' : Pool}

/-- A sound pool stays sound when sound splitters stay as they are. -/
theorem SoundOn.of_same (h : pool.SoundOn around R)
    (hsame : ∀ s, R s → pool'.splitters[s]? = pool.splitters[s]?)
    (hgrows : ∀ s position, pool.StartedAt s position → pool'.StartedAt s position) :
    pool'.SoundOn around R := by
  intro s hs
  obtain ⟨splitter, hsplitter, hsound⟩ := h s hs
  exact ⟨splitter, (hsame s hs).trans hsplitter, hsound.grow (fun _ _ hR _ => hR) hgrows⟩

/-- Below one of them, the splitters are sound by themselves. -/
theorem SoundOn.below (h : pool.SoundOn around R) (s : SplitterId) :
    pool.SoundOn around fun t => R t ∧ t < s := by
  rintro t ⟨ht, hts⟩
  obtain ⟨splitter, hsplitter, hsound⟩ := h t ht
  exact ⟨splitter, hsplitter, hsound.grow (fun u _ hu hut => ⟨hu, Nat.lt_trans hut hts⟩)
    fun _ _ hstarted => hstarted⟩

/-- Closing keeps a pool sound. -/
theorem Closes.moves (h : pool.Closes pool') (hsound : pool.SoundOn around R) :
    Moves around R pool pool' where
  toTouches := h.touches R
  sound := hsound.of_same (fun s _ => by rw [h.splitters]) fun s position hstarted =>
    hstarted.of_splitters (by rw [h.splitters])
  grows s position hstarted := hstarted.of_splitters (by rw [h.splitters])

theorem Moves.refl (hsound : pool.SoundOn around R) : Moves around R pool pool :=
  (Closes.refl pool).moves hsound

/-- So does writing into the log. -/
theorem Moves.record (hsound : pool.SoundOn around R) (event : Event) :
    Moves around R pool (pool.record event) where
  toTouches := .record R pool event
  sound := hsound.of_same (fun _ _ => rfl) fun _ _ h => h
  grows _ _ h := h

/-- So do two runs of which each does. -/
theorem Moves.trans (h : Moves around R pool pool') (h' : Moves around R pool' pool'') :
    Moves around R pool pool'' where
  toTouches := h.toTouches.trans h'.toTouches
  sound := h'.sound
  grows s position hstarted := h'.grows s position (h.grows s position hstarted)

/-- A splitter has changed, and those below it have been used. -/
theorem SoundOn.update (h : pool.SoundOn around R) {s : SplitterId}
    (hbelow : pool'.SoundOn around fun t => R t ∧ t < s)
    (hentry : ∃ splitter, pool'.splitters[s]? = some splitter ∧ splitter.Sound around R pool' s)
    (habove : ∀ t, s < t → pool'.splitters[t]? = pool.splitters[t]?)
    (hgrows : ∀ t position, pool.StartedAt t position → pool'.StartedAt t position) :
    pool'.SoundOn around R := by
  intro t ht
  rcases Nat.lt_trichotomy t s with hlt | rfl | hgt
  · obtain ⟨splitter, hsplitter, hsound⟩ := hbelow t ⟨ht, hlt⟩
    exact ⟨splitter, hsplitter, hsound.grow (fun _ _ hu _ => hu.1) fun _ _ hstarted => hstarted⟩
  · exact hentry
  · obtain ⟨splitter, hsplitter, hsound⟩ := h t ht
    exact ⟨splitter, (habove t hgt).trans hsplitter, hsound.grow (fun _ _ hu _ => hu) hgrows⟩

end Pool

/-! ## The work that is left in a pool -/

/-- At most how many steps the operators of a supply are still busy. -/
def Supply.work (around : Surroundings) : Supply → Nat
  | waiting plan => plan.load around.limit
  | opened c => c.work around
  | _ => 0

/-- At most how many steps the operators of all supplies are still busy. -/
def Pool.work (around : Surroundings) (pool : Pool) : Nat :=
  (pool.splitters.toList.map fun splitter => splitter.supply.work around).sum

/-- The sum of weights after one item was changed. -/
theorem sum_map_modify {α : Type} (weight : α → Nat) (f : α → α) :
    ∀ (l : List α) (i : Nat) (a : α), l[i]? = some a →
      ((l.modify i f).map weight).sum + weight a = (l.map weight).sum + weight (f a)
  | [], i, a, h => by simp at h
  | b :: l, 0, a, h => by
    obtain rfl : b = a := by simpa using h
    simp
    omega
  | b :: l, i + 1, a, h => by
    have ih := sum_map_modify weight f l i a (by simpa using h)
    simp
    omega

/-- If no change of an item adds weight, the sum does not grow. -/
theorem sum_map_le {α : Type} {weight : α → Nat} {f : α → α} (hf : ∀ a, weight (f a) ≤ weight a) :
    ∀ {l l' : List α}, (∀ i : Nat, l'[i]? = l[i]? ∨ l'[i]? = l[i]?.map f) →
      (l'.map weight).sum ≤ (l.map weight).sum
  | _, [], _ => Nat.zero_le _
  | [], a :: l', h => by
    have h0 := h 0
    simp at h0
  | a :: l, a' :: l', h => by
    have ih : (l'.map weight).sum ≤ (l.map weight).sum := sum_map_le hf fun i => h (i + 1)
    have ha : weight a' ≤ weight a := by
      rcases h 0 with h0 | h0
      · obtain rfl : a' = a := by simpa using h0
        exact Nat.le_refl _
      · obtain rfl : a' = f a := by simpa using h0
        exact hf a
    simp
    omega

namespace Pool

variable {around : Surroundings} {pool pool' : Pool}

/-- The change of one splitter counts for itself. -/
theorem work_change {s : SplitterId} {splitter : Splitter}
    (hs : pool.splitters[s]? = some splitter) (f : Splitter → Splitter) :
    (pool.change s f).work around + splitter.supply.work around =
      pool.work around + (f splitter).supply.work around := by
  unfold work change
  rw [Array.toList_modify]
  exact sum_map_modify (fun splitter => splitter.supply.work around) f _ s splitter
    (by rw [Array.getElem?_toList, hs])

/-- Closing leaves the work as it is. -/
theorem Closes.work (h : pool.Closes pool') : pool'.work around = pool.work around := by
  rw [Pool.work, Pool.work, h.splitters]

/-- Releasing makes no work. -/
theorem Releases.work (h : pool.Releases pool') : pool'.work around ≤ pool.work around := by
  have hended : ∀ splitter : Splitter,
      (splitter.withSupply .ended).supply.work around ≤ splitter.supply.work around :=
    fun _ => Nat.zero_le _
  refine sum_map_le hended fun i => ?_
  rw [Array.getElem?_toList, Array.getElem?_toList]
  exact h.entry i

end Pool

end GraphShapes
