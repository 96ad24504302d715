import EmbeddedMarkup.Mode.Stack

/-!
# Levels of nesting

The budget of a stack of modes, less what is charged against it, is the number of levels that
reading may still descend.  Opening a tag and entering a host expression take one level each, and
holes take none.  Each move is described by when it is allowed and by the stack that it leaves;
taking back what a move put on gives the stack that the move started from.
-/

namespace EmbeddedMarkup

/-- The mode that a hole of this owner stands in. -/
def HoleOwner.frame : HoleOwner → Nat → Mode
  | .tagHeader, depth => .tagHeader depth
  | .tagContent, depth => .tagContent depth

namespace ModeStack

/-- How many more tags and host expressions the budget allows. -/
def levels (stack : ModeStack) : Nat :=
  stack.budget - stack.nesting

/-- A tag may open in this mode. -/
def AllowsTags (stack : ModeStack) : Prop :=
  ∀ depth, stack.mode ≠ .tagHeader depth

/-- The stack while one more host expression is charged. -/
def charged (stack : ModeStack) : ModeStack :=
  { stack with expressions := stack.expressions + 1 }

variable {stack after : ModeStack} {position : Position}

@[simp] theorem mode_push (stack : ModeStack) (mode : Mode) : (stack.push mode).mode = mode := rfl

@[simp] theorem expressions_push (stack : ModeStack) (mode : Mode) :
    (stack.push mode).expressions = stack.expressions := rfl

@[simp] theorem budget_push (stack : ModeStack) (mode : Mode) :
    (stack.push mode).budget = stack.budget := rfl

@[simp] theorem frames_push_ne_nil (stack : ModeStack) (mode : Mode) :
    (stack.push mode).frames ≠ [] := by
  simp [push]

@[simp] theorem frames_charged (stack : ModeStack) : stack.charged.frames = stack.frames := rfl

@[simp] theorem mode_charged (stack : ModeStack) : stack.charged.mode = stack.mode := rfl

@[simp] theorem replace_push (stack : ModeStack) (first second : Mode) :
    (stack.push first).replace second = stack.push second := rfl

@[simp] theorem exitExpression_charged (stack : ModeStack) :
    stack.charged.exitExpression = stack := rfl

/-- Taking off what was put on leaves the stack as it was. -/
theorem pop_push (proper : stack.frames ≠ []) (mode : Mode) : (stack.push mode).pop = stack := by
  simp [pop, push, proper]

/-- The innermost mode of a stack, unless it is host code, is what its modes start with. -/
theorem frames_of_mode {mode : Mode} (inside : stack.mode = mode) (above : mode ≠ .hostCode) :
    ∃ outer, stack.frames = mode :: outer := by
  unfold ModeStack.mode at inside
  cases frames : stack.frames with
  | nil => simp [frames, above.symm] at inside
  | cons first outer =>
      rw [frames] at inside
      exact ⟨outer, by simpa using inside⟩

/-- A stack whose innermost mode is a tag is not empty. -/
theorem frames_ne_nil_of_mode
    {owner : HoleOwner}
    {depth : Nat}
    (inside : stack.mode = owner.frame depth) :
    stack.frames ≠ [] := by
  intro empty
  cases owner <;> simp [mode, empty, HoleOwner.frame] at inside

/-- A host expression is entered exactly when there is a level left. -/
theorem enterExpression_eq_ok :
    enterExpression position stack = .ok () after ↔ 0 < stack.levels ∧ after = stack.charged := by
  unfold enterExpression levels
  split
  · simp only [reduceCtorEq, false_iff, not_and]
    omega
  · simp only [EStateM.Result.ok.injEq, true_and, charged]
    constructor
    · rintro rfl
      exact ⟨by omega, rfl⟩
    · rintro ⟨_, rfl⟩
      rfl

/-- Entering a host expression takes a level. -/
theorem levels_charged (stack : ModeStack) : stack.charged.levels = stack.levels - 1 := by
  unfold levels nesting depth
  rw [mode_charged]
  simp only [charged]
  omega

/-- A tag opens exactly when its mode allows tags and there is a level left. -/
theorem openTag_eq_ok
    {depth : Nat} :
    openTag position stack = .ok depth after ↔
      stack.AllowsTags ∧ 0 < stack.levels ∧ depth = stack.depth + 1 ∧
        after = stack.push (.tagHeader (stack.depth + 1)) := by
  unfold openTag levels nesting AllowsTags
  split
  · rename_i inside
    simp [refuse, inside]
  · rename_i outside
    have depth_eq : stack.mode.depth = stack.depth := rfl
    split
    · simp only [reduceCtorEq, false_iff, not_and]
      omega
    · simp only [EStateM.Result.ok.injEq, depth_eq]
      constructor
      · rintro ⟨rfl, rfl⟩
        exact ⟨outside, by omega, rfl, rfl⟩
      · rintro ⟨_, _, rfl, rfl⟩
        exact ⟨rfl, rfl⟩

/-- In the header of a tag no tag opens. -/
theorem openTag_eq_refuse {depth : Nat} (header : stack.mode = .tagHeader depth) :
    openTag position stack = .error ⟨.notAllowed .openTag stack.mode, position⟩ stack := by
  unfold openTag
  rw [header]
  simp only [refuse, header]

/-- Where no level is left, no tag opens. -/
theorem openTag_eq_error (allowed : stack.AllowsTags) (exhausted : stack.levels = 0) :
    openTag position stack = .error ⟨.tooManyTags stack.budget, position⟩ stack := by
  unfold openTag
  split
  · rename_i header
    exact absurd header (allowed _)
  · rw [if_pos]
    unfold levels nesting depth at exhausted
    omega

/-- A tag that does not open changes nothing. -/
theorem eq_of_openTag_eq_error
    {refusal : ModeRefusal}
    (refused : openTag position stack = .error refusal after) :
    after = stack := by
  unfold openTag refuse at refused
  split at refused
  · cases refused
    rfl
  · split at refused <;> cases refused
    rfl

/-- Where no level is left, no expression is entered. -/
theorem enterExpression_eq_error (exhausted : stack.levels = 0) :
    enterExpression position stack = .error ⟨.tooManyExpressions stack.budget, position⟩ stack := by
  unfold enterExpression
  rw [if_pos]
  unfold levels at exhausted
  omega

/-- An open tag takes a level, in its header and in its content. -/
theorem levels_push_frame (stack : ModeStack) (owner : HoleOwner) :
    (stack.push (owner.frame (stack.depth + 1))).levels = stack.levels - 1 := by
  have deeper : (stack.push (owner.frame (stack.depth + 1))).depth = stack.depth + 1 := by
    cases owner <;> rfl
  rw [levels, levels, nesting, nesting, deeper, budget_push, expressions_push]
  omega

/-- A hole takes no level. -/
theorem levels_push_hole
    {owner : HoleOwner}
    {depth : Nat}
    (inside : stack.mode = owner.frame depth) :
    (stack.push (.expressionHole depth owner)).levels = stack.levels := by
  have same : (stack.push (.expressionHole depth owner)).depth = stack.depth := by
    rw [ModeStack.depth, ModeStack.depth, inside]
    cases owner <;> rfl
  rw [levels, levels, nesting, nesting, same, budget_push, expressions_push]

theorem enterContent_push {depth : Nat} :
    enterContent position (stack.push (.tagHeader depth)) =
      .ok () (stack.push (.tagContent depth)) := rfl

theorem selfClose_push {depth : Nat} (proper : stack.frames ≠ []) :
    selfClose position (stack.push (.tagHeader depth)) = .ok stack.mode stack := by
  simp [selfClose, pop_push proper]

theorem closeTag_push {depth : Nat} (proper : stack.frames ≠ []) :
    closeTag position (stack.push (.tagContent depth)) = .ok stack.mode stack := by
  simp [closeTag, pop_push proper]

/-- A hole opens exactly in the header or in the content of a tag. -/
theorem openHole_eq_ok :
    openHole position stack = .ok () after ↔
      ∃ owner depth, stack.mode = HoleOwner.frame owner depth ∧
        after = stack.push (.expressionHole depth owner) := by
  unfold openHole
  constructor
  · intro opened
    split at opened
    · cases opened
      exact ⟨.tagHeader, _, by assumption, rfl⟩
    · cases opened
      exact ⟨.tagContent, _, by assumption, rfl⟩
    · cases opened
  · rintro ⟨owner, depth, inside, rfl⟩
    cases owner <;> simp [inside, HoleOwner.frame]

/-- A hole that is closed leads back to the stack that it was opened on. -/
theorem closeHole_push
    {owner : HoleOwner}
    {depth : Nat}
    (inside : stack.mode = owner.frame depth) :
    closeHole position (stack.push (.expressionHole depth owner)) = .ok stack.mode stack := by
  have restored := pop_push (frames_ne_nil_of_mode inside) (.expressionHole depth owner)
  cases owner <;> simp [closeHole, restored, inside, isOwnedBy, HoleOwner.frame]

end ModeStack
end EmbeddedMarkup
