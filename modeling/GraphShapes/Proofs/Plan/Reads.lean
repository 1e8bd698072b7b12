import GraphShapes.Proofs.Plan.Built

/-!
# Plans that come to an end

A plan `ReadsTo` rows if reading it to the end brings them and no failure, whatever it is made of,
also with probes that stand in for other producers. What an operator makes of such inputs is a
matter of their rows only, even where several of them read the same splitter: the inputs `Yields`
their rows (`ReadsTo.yields`), and an operator that yields rows brings them (`Yields.brings`).
-/

namespace GraphShapes.Plan

variable {ss : Splitters} {p : Plan} {rows : List Row}

/-- Reading the plan to the end brings the rows, and the splitters that it reads are there. -/
structure ReadsTo (ss : Splitters) (p : Plan) (rows : List Row) : Prop where
  reads : ∀ s ∈ p.readSplitters, s < ss.size
  brings : p.Brings ss rows

/-- A producer outside the library that has given rows about targets. -/
def producer (rows : List Row) : Plan :=
  .probe { name := "producer", rows := rows, layout := .aggregated }

section Layered

variable (hlayered : ss.Layered)
include hlayered

theorem ReadsTo.yields (h : p.ReadsTo ss rows) : p.Yields ss rows :=
  (brings_iff_yields hlayered h.reads).1 h.brings

theorem Yields.brings (hreads : ∀ s ∈ p.readSplitters, s < ss.size) (h : p.Yields ss rows) :
    p.Brings ss rows := (brings_iff_yields hlayered hreads).2 h

theorem Yields.readsTo (hreads : ∀ s ∈ p.readSplitters, s < ss.size) (h : p.Yields ss rows) :
    p.ReadsTo ss rows := ⟨hreads, h.brings hlayered hreads⟩

/-- What a producer outside the library has comes as it is. -/
theorem readsTo_producer (rows : List Row) : (producer rows).ReadsTo ss rows :=
  Yields.readsTo hlayered nofun rfl

/-- A reader brings what the supply brings. -/
theorem ReadsTo.reader {s : SplitterId} (hs : ss[s]? = some p) (h : p.ReadsTo ss rows)
    (layout : Layout) : (Plan.reader s layout).ReadsTo ss rows :=
  ((h.yields hlayered).reader hlayered hs layout).readsTo hlayered
    (List.forall_mem_singleton.2 (Array.getElem?_eq_some_iff.1 hs).1)

end Layered

end GraphShapes.Plan
