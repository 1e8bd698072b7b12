import GraphShapes.Encoding.Term
import GraphShapes.Proofs.Store.Scan

/-!
# Stores with a history

A store is built up by updates: statements are inserted and removed one by one, added from a list,
or the whole store is given up for one of a list or of a document (`Store.after`), whatever the
codec of documents is. `Store.Holds` says which statements should be there afterwards, by looking at
the updates alone.

`Store.after_presents`: whatever the history was, both indexes hold these statements and no others,
every scan finds the ones that fit its pattern, each of them once and in the order that the pattern
calls for, and two histories lead to the same store exactly if they leave the same statements.
-/

namespace GraphShapes

namespace Statement

/-- The order by two positions of a statement, the first of them before the second. -/
def compareAt (first second : Statement → Term) (a b : Statement) : Ordering :=
  ((first a).compare (first b)).then ((second a).compare (second b))

/-- Among statements of one subject, the order of statements is that of predicates and objects. -/
theorem compareAt_of_subject_eq {a b : Statement} (h : a.subject = b.subject) :
    compareAt predicate object a b = compare a b := by
  rw [compare, h, Term.compare_self]
  rfl

/-- Among statements of one predicate, the order of the second index is that of objects and
subjects. -/
theorem compareAt_of_predicate_eq {a b : Statement} (h : a.predicate = b.predicate) :
    compareAt object subject a b = compareByPredicate a b := by
  rw [compareByPredicate, h, Term.compare_self]
  rfl

end Statement

/-- The order in which a scan delivers: the fixed positions in front say nothing. -/
def Pattern.order (p : Pattern) : Statement → Statement → Ordering :=
  match p.subject, p.predicate with
  | some _, _ => Statement.compareAt Statement.predicate Statement.object
  | none, some _ => Statement.compareAt Statement.object Statement.subject
  | none, none => Statement.compare

namespace Store

/-- What can be done to a store. -/
inductive Update where
  | insert (st : Statement)
  | remove (st : Statement)
  | extend (sts : List Statement)
  /-- The store is given up for the one of a list. -/
  | ofList (sts : List Statement)
  /-- The store is given up for the one that a document writes, if it writes one. -/
  | read (text : String)

def apply (codec : Json.Codec) (s : Store) : Update → Store
  | .insert st => s.insert st
  | .remove st => s.remove st
  | .extend sts => s.extend sts
  | .ofList sts => ofList sts
  | .read text => ((ofJson? codec).ofText? text codec).getD s

/-- The store after a history that began with the empty store. The last update comes first. -/
def after (codec : Json.Codec) : List Update → Store
  | [] => empty
  | u :: earlier => (after codec earlier).apply codec u

/-- The statements that a document lists. -/
def listed? (codec : Json.Codec) (text : String) : Option (List Statement) :=
  (codec.list? (Statement.ofJson? codec)).ofText? text codec

/-- Whether a statement should be there after a history. -/
def Holds (codec : Json.Codec) (st : Statement) : List Update → Prop
  | [] => False
  | .insert x :: earlier => st = x ∨ Holds codec st earlier
  | .remove x :: earlier => st ≠ x ∧ Holds codec st earlier
  | .extend sts :: earlier => Holds codec st earlier ∨ st ∈ sts
  | .ofList sts :: _ => st ∈ sts
  | .read text :: earlier =>
    match listed? codec text with
    | some sts => st ∈ sts
    | none => Holds codec st earlier

variable {codec : Json.Codec}

/-- A document is read as the store of the statements that it lists. -/
theorem ofText?_eq (text : String) :
    (ofJson? codec).ofText? text codec = (listed? codec text).map ofList := by
  unfold listed? Decoder.ofText?
  cases codec.read? text with
  | none => rfl
  | some v => rfl

/-- The statements of a store are those that its history should have left. -/
theorem mem_after {st : Statement} : ∀ {history : List Update},
    st ∈ (after codec history).toList ↔ Holds codec st history
  | [] => by
    show st ∈ [] ↔ False
    simp
  | u :: earlier => by
    have ih : st ∈ (after codec earlier).toList ↔ Holds codec st earlier := mem_after
    cases u with
    | insert x => exact mem_insert.trans (or_congr_right ih)
    | remove x => exact mem_remove.trans (and_congr_right' ih)
    | extend sts => exact mem_extend.trans (or_congr_left ih)
    | ofList sts => exact mem_ofList
    | read text =>
      rw [after, apply, Holds, ofText?_eq]
      cases listed? codec text with
      | none => exact ih
      | some sts => exact mem_ofList

/-! ## The order of what a scan finds -/

variable {s : Store} {p : Pattern}

/-- No statement is found twice, and the order is the one of the index that was read. -/
theorem ascending_scan : Ordered.Ascending p.order (s.scan p) := by
  -- Only a pattern with a predicate and no subject is looked up in the second index.
  by_cases hindex : p.subject = none → p.predicate = none
  · rw [scan_eq_filter_bySubject hindex]
    have hasc : Ordered.Ascending Statement.compare (s.bySubject.filter p.fits) :=
      s.ascending.sublist List.filter_sublist
    unfold Pattern.order
    cases hs : p.subject with
    | none =>
      rw [hindex hs]
      exact hasc
    | some t =>
      refine hasc.imp_of_mem ?_
      intro a b ha hb hab
      have ha : a.subject = t := Pattern.subject_of_fits (List.mem_filter.1 ha).2 hs
      have hb : b.subject = t := Pattern.subject_of_fits (List.mem_filter.1 hb).2 hs
      show Statement.compareAt _ _ a b = .lt
      rw [Statement.compareAt_of_subject_eq (ha.trans hb.symm)]
      exact hab
  · obtain ⟨hs, hp⟩ := Classical.not_imp.1 hindex
    obtain ⟨t, hp⟩ := Option.ne_none_iff_exists'.1 hp
    rw [scan_eq_filter_byPredicate hs hp]
    unfold Pattern.order
    rw [hs, hp]
    refine (s.ascendingByPredicate.sublist List.filter_sublist).imp_of_mem ?_
    intro a b ha hb hab
    have ha : a.predicate = t := (Pattern.fits_iff.1 (List.mem_filter.1 ha).2).2.1 t hp
    have hb : b.predicate = t := (Pattern.fits_iff.1 (List.mem_filter.1 hb).2).2.1 t hp
    show Statement.compareAt _ _ a b = .lt
    rw [Statement.compareAt_of_predicate_eq (ha.trans hb.symm)]
    exact hab

/-- A store presents a set of statements: both indexes hold just these, and scans find in it what
they ask for, each statement once and in order. -/
structure Presents (s : Store) (holds : Statement → Prop) : Prop where
  bySubject : ∀ st, st ∈ s.bySubject ↔ holds st
  byPredicate : ∀ st, st ∈ s.byPredicate ↔ holds st
  scan : ∀ (p : Pattern) (st : Statement), st ∈ s.scan p ↔ holds st ∧ p.fits st
  /-- The order is strict. -/
  ordered : ∀ p : Pattern, Ordered.Ascending p.order (s.scan p)
  hasMatch : ∀ p : Pattern, s.hasMatch p ↔ ∃ st, holds st ∧ p.fits st

/-- After any history, the store presents the statements that should be there, and it depends on
nothing else. -/
theorem after_presents (codec : Json.Codec) (history : List Update) :
    (after codec history).Presents (Holds codec · history) ∧
      ∀ history', after codec history = after codec history' ↔
        ∀ st, Holds codec st history ↔ Holds codec st history' := by
  constructor
  · constructor
    case bySubject => exact fun _ => mem_after
    case byPredicate => exact fun st => ((after codec history).agree st).trans mem_after
    case scan =>
      intro p st
      rw [mem_scan, mem_after]
    case ordered => exact fun _ => ascending_scan
    case hasMatch =>
      intro p
      rw [hasMatch_iff]
      simp only [mem_after]
  · intro history'
    constructor
    · intro h st
      rw [← mem_after, ← mem_after, h]
    · intro h
      apply eq_of_mem_iff
      intro st
      rw [mem_after, mem_after]
      exact h st

end Store

end GraphShapes
