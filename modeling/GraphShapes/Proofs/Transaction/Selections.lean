import GraphShapes.Proofs.Planner.Commit

/-!
# What a commit does to selections

A selector is asked four questions: which terms it selects, whether it selects a given one, which of
them a delta may have moved, and whether there are any. Each answer is a scan of its own, with the
pattern bound at other positions. `Target.views_agree`: over stores, they are answers about one
selection. The question about a single term is that of membership, the quick test tells whether there
are affected terms, and a commit moves only affected terms into the selection or out of it.

What keeps an unaffected term where it is: the statement because of which it is selected would have
to be in the delta.
-/

namespace GraphShapes

namespace Transaction

variable {before added removed : Store} {target : Target} {x : Term}

/-- A term that the delta does not mark is selected after a commit exactly if it was before. -/
theorem picks_iff_of_not_marks (h : ¬(ofChange before added removed).delta.Marks target x) :
    x ∈ target.picks (ofChange before added removed).after.store ↔ x ∈ target.picks before := by
  rw [Target.mem_picks_iff, Target.mem_picks_iff]
  refine or_congr_right (exists_congr fun st => and_congr_left fun hp => ?_)
  exact mem_after_iff fun hch => h (Delta.marks_of_changes hch hp)

end Transaction

namespace Target

/-- The four questions about a selector are about one selection. -/
structure ViewsAgree (target : Target) : Prop where
  /-- A term is said to be selected exactly if it is in the selection. -/
  contains : ∀ G : Store, ∃ selection, target.select (.ofStore G) = .ok selection ∧
    ∀ x, target.contains (.ofStore G) x = .ok (decide (x ∈ selection))
  /-- A delta is said to touch the selector exactly if there are affected terms. -/
  touchedBy : ∀ new gone : Store, ∃ affected,
    target.affected ⟨.ofStore new, .ofStore gone⟩ = .ok affected ∧
      target.touchedBy ⟨.ofStore new, .ofStore gone⟩ = .ok (!affected.isEmpty)
  /-- A term that a commit moves into the selection or out of it is affected. -/
  affected : ∀ before added removed : Store, ∃ earlier later affected,
    target.select (.ofStore before) = .ok earlier ∧
      target.select (Transaction.ofChange before added removed).after = .ok later ∧
      target.affected (Transaction.ofChange before added removed).delta = .ok affected ∧
      ∀ x, (x ∈ later ∧ x ∉ earlier) ∨ (x ∈ earlier ∧ x ∉ later) → x ∈ affected

theorem views_agree (target : Target) : target.ViewsAgree where
  contains G := by
    have hG := Source.reliable_ofStore G
    obtain ⟨selection, hselect, hmem⟩ := target.mem_select hG
    refine ⟨selection, hselect, fun x => ?_⟩
    rw [target.contains_eq hG, Except.ok.injEq, decide_eq_decide]
    exact (hmem x).symm
  touchedBy new gone := by
    have hdelta : Delta.Reliable ⟨.ofStore new, .ofStore gone⟩ :=
      ⟨Source.reliable_ofStore new, Source.reliable_ofStore gone⟩
    obtain ⟨affected, haffected, hmem⟩ := target.mem_affected hdelta
    obtain ⟨touched, htouched, hiff⟩ := target.touchedBy_eq hdelta
    refine ⟨affected, haffected, htouched.trans (congrArg Except.ok ?_)⟩
    rw [Bool.eq_iff_iff, hiff, Bool.not_eq_true', List.isEmpty_eq_false_iff_exists_mem]
    exact exists_congr fun x => (hmem x).symm
  affected before added removed := by
    have hafter : (Transaction.ofChange before added removed).after.Reliable :=
      Source.reliable_ofStore _
    have hdelta : (Transaction.ofChange before added removed).delta.Reliable :=
      Transaction.delta_reliable
    obtain ⟨earlier, hearlier, hmem⟩ := target.mem_select (Source.reliable_ofStore before)
    obtain ⟨later, hlater, hmem'⟩ := target.mem_select hafter
    obtain ⟨affected, haffected, hmarks⟩ := target.mem_affected hdelta
    refine ⟨earlier, later, affected, hearlier, hlater, haffected, fun x hmoved => ?_⟩
    rw [hmem, hmem'] at hmoved
    by_contra hx
    have hsame := Transaction.picks_iff_of_not_marks fun hm => hx ((hmarks x).2 hm)
    rcases hmoved with ⟨hnow, hbefore⟩ | ⟨hbefore, hnow⟩
    · exact hbefore (hsame.1 hnow)
    · exact hnow (hsame.2 hbefore)

/-- A commit moves one subject out of the selection and another into it; the subject whose statement
it takes out and puts back is affected as well. -/
example :
    let fact (n : Int64) : Statement := ⟨.int n, .int 0, .int 0⟩
    let commit := Transaction.ofChange (.ofList [fact 1, fact 2]) (.ofList [fact 2, fact 3])
      (.ofList [fact 1, fact 2])
    ((subjectsOf (.int 0)).select commit.after).toOption = some [.int 2, .int 3] ∧
      ((subjectsOf (.int 0)).affected commit.delta).toOption = some [.int 1, .int 2, .int 3] := by
  decide

end Target

end GraphShapes
