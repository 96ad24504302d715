import EmbeddedMarkup.Proofs.HostText.Tracking
import Mathlib.Data.Nat.Find

/-!
# The budget as a threshold

A text needs some budget.  With less, every run uses up what it has; with that much or more, all
runs have one and the same result, and it does not tell of the budget.  This follows from runs that
track each other: the least budget that is not used up is compared with every other one.

A run that uses up its budget has descended through a tag or an expression for every level, and so
has passed a character for each, except for the innermost expression, which may be missing.
-/

namespace EmbeddedMarkup

variable {α : Type} {results : Nat → Except Fault α} {bound budget : Nat}

/-- The run with this budget used it up. -/
def UsesUp (results : Nat → Except Fault α) (budget : Nat) : Prop :=
  ∃ fault, results budget = .error fault ∧ fault.Exceeds budget

/--
From some budget on, which is within the bound, all results are the same one, which tells of no
budget that was used up; with less, the budget is used up.
-/
def HasThreshold (results : Nat → Except Fault α) (bound : Nat) : Prop :=
  ∃ least ≤ bound,
    (∀ budget, least ≤ budget → results budget = results least) ∧
      (∀ fault, results least = .error fault → ¬fault.IsExcess) ∧
      ∀ budget < least, UsesUp results budget

/-- The runs with all budgets track each other, and they use up no budget beyond the bound. -/
def RunsTrack (results : Nat → Except Fault α) (bound : Nat) : Prop :=
  ∃ f, ∀ budget budget', budget ≤ budget' →
    ResultTracks .zero budget budget' (budget < bound) f (results budget) (results budget')

namespace RunsTrack

variable (runs : RunsTrack results bound)

include runs

/-- A budget of as much as the bound is not used up. -/
theorem not_usesUp_bound : ¬UsesUp results bound := by
  obtain ⟨f, runs⟩ := runs
  rintro ⟨fault, failed, exceeds⟩
  have tracks := runs bound (bound + 1) (Nat.le_succ bound)
  rw [failed] at tracks
  rcases tracks.of_error with ⟨-, own⟩ | ⟨few, -, -⟩
  · exact own (Nat.ne_of_lt (Nat.lt_succ_self bound)) ⟨bound, exceeds⟩
  · exact Nat.lt_irrefl bound few

/-- A result that did not use up its budget tells of none. -/
theorem not_isExcess
    {fault : Fault}
    (enough : ¬UsesUp results budget)
    (failed : results budget = .error fault) :
    ¬fault.IsExcess := by
  obtain ⟨f, runs⟩ := runs
  have tracks := runs budget (budget + 1) (Nat.le_succ budget)
  rw [failed] at tracks
  rcases tracks.of_error with ⟨-, own⟩ | ⟨-, -, exceeds⟩
  · exact own (Nat.ne_of_lt (Nat.lt_succ_self budget))
  · exact absurd ⟨fault, failed, exceeds⟩ enough

/-- More than a budget that is not used up changes nothing, as the run with it tracks itself. -/
theorem eq_of_le
    {least : Nat}
    (enough : ¬UsesUp results least)
    (more : least ≤ budget) :
    results budget = results least := by
  obtain ⟨f, runs⟩ := runs
  have itself := runs least least (Nat.le_refl least)
  have tracks := runs least budget more
  cases result : results least with
  | ok value =>
      rw [result] at itself tracks
      generalize results budget = other at tracks
      cases itself with
      | ok same =>
          cases tracks with
          | ok same' => rw [same', ← same]
  | error fault =>
      rw [result] at tracks
      rcases tracks.of_error with ⟨same, -⟩ | ⟨-, -, exceeds⟩
      · exact same
      · exact absurd ⟨fault, result, exceeds⟩ enough

/-- The least budget that is not used up is a threshold. -/
theorem hasThreshold : HasThreshold results bound := by
  classical
  have some_enough : ∃ budget, ¬UsesUp results budget := ⟨bound, runs.not_usesUp_bound⟩
  have enough := Nat.find_spec some_enough
  refine ⟨Nat.find some_enough, Nat.find_min' some_enough runs.not_usesUp_bound, ?_, ?_, ?_⟩
  · intro budget more
    exact runs.eq_of_le enough more
  · intro fault failed
    exact runs.not_isExcess enough failed
  · intro budget less
    exact not_not.mp (Nat.find_min some_enough less)

end RunsTrack

theorem Document.runsTrack_ofText (text : String) :
    RunsTrack (Document.ofText text) (text.length + 1) :=
  ⟨_, fun _ _ within => (tracks_ofText text within).mono Nat.lt_succ_of_lt⟩

theorem Expression.runsTrack_ofText (text : String) :
    RunsTrack (Expression.ofText text) (text.length + 1) :=
  ⟨_, fun _ _ within => (tracks_ofText text within).mono Nat.lt_succ_of_le⟩

/--
The budget decides in one way only whether a text is read as a document, or as an expression: there
is a least one, of at most one more than the characters of the text, from which on the result is
always the same.
-/
theorem hasThreshold_ofText (text : String) :
    HasThreshold (Document.ofText text) (text.length + 1) ∧
      HasThreshold (Expression.ofText text) (text.length + 1) :=
  ⟨(Document.runsTrack_ofText text).hasThreshold, (Expression.runsTrack_ofText text).hasThreshold⟩

end EmbeddedMarkup
