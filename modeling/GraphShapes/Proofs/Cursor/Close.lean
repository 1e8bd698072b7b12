import GraphShapes.Cursor.Step

/-!
# What closing does to the pool

Closing a cursor leaves the splitters as they are and only adds to the log that producers were
closed (`Pool.Closes`). So neither closing nor giving up cursors can fail or hide a failure.
-/

namespace GraphShapes

/-- Nothing happened between two pools but that producers were closed. -/
structure Pool.Closes (pool pool' : Pool) : Prop where
  splitters : pool'.splitters = pool.splitters
  budget : pool'.budget = pool.budget
  log : ∃ names : List String, pool'.log = names.map Event.closed ++ pool.log

namespace Pool.Closes

variable {pool pool' pool'' : Pool}

theorem refl (pool : Pool) : pool.Closes pool := ⟨rfl, rfl, [], rfl⟩

/-- Closing one thing after another closes both. -/
theorem trans (h : pool.Closes pool') (h' : pool'.Closes pool'') : pool.Closes pool'' := by
  obtain ⟨names, hlog⟩ := h.log
  obtain ⟨names', hlog'⟩ := h'.log
  refine ⟨h'.splitters.trans h.splitters, h'.budget.trans h.budget, names' ++ names, ?_⟩
  rw [hlog', hlog, List.map_append, List.append_assoc]

theorem record (pool : Pool) (name : String) : pool.Closes (pool.record (.closed name)) :=
  ⟨rfl, rfl, [name], rfl⟩

end Pool.Closes

open Pool (Closes)

mutual

/-- Closing a cursor leaves the splitters as they are and only logs closings. -/
theorem Cursor.close_closes : ∀ (c : Cursor) (pool : Pool), pool.Closes (c.close pool).2
  | .rows _, pool => .refl pool
  | .probe _ _ true, pool => .refl pool
  | .probe p _ false, pool => .record pool p.name
  | .scan _, pool => .refl pool
  | .reader .., pool => .refl pool
  | .values targets _ _ _, pool => targets.close_closes pool
  | .filter input _, pool => input.close_closes pool
  | .mapped input _, pool => input.close_closes pool
  | .unique input _ _, pool => input.close_closes pool
  | .unsorted _, pool => .refl pool
  | .sorting input _, pool => input.close_closes pool
  | .union inputs, pool => Lookahead.closeAll_closes inputs pool
  | .merge _ left right _ _, pool =>
    (left.close_closes pool).trans (right.close_closes (left.close pool).2)
  | .ahead input, pool => input.close_closes pool

/-- So does closing a cursor that has a row looked ahead. -/
theorem Lookahead.close_closes : ∀ (l : Lookahead) (pool : Pool), pool.Closes (l.close pool).2
  | .mk inner _, pool => inner.close_closes pool

/-- Closing the inputs of a union does nothing else either. -/
theorem Lookahead.closeAll_closes :
    ∀ (ls : List Lookahead) (pool : Pool), pool.Closes (Lookahead.closeAll ls pool).2
  | [], pool => .refl pool
  | l :: ls, pool => (l.close_closes pool).trans (Lookahead.closeAll_closes ls (l.close pool).2)

end

/-- Giving up several cursors does nothing but close them. -/
theorem Cursor.closeEach_closes :
    ∀ (cursors : List Cursor) (pool : Pool), pool.Closes (Cursor.closeEach cursors pool)
  | [], pool => .refl pool
  | c :: cs, pool => (c.close_closes pool).trans (Cursor.closeEach_closes cs (c.close pool).2)

theorem Cursor.failing_closes (e : OpError) (c : Cursor) (pool : Pool) :
    pool.Closes (c.failing e pool).2.2 := c.close_closes pool

end GraphShapes
