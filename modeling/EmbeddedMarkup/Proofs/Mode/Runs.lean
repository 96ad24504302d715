import EmbeddedMarkup.Proofs.Reading.Levels

/-!
# Runs of the stack of modes

Whatever moves are asked for on a new stack, in any order, allowed or not, the stack stays well
nested: host code is outermost and nowhere else, every hole stands directly on the tag that it was
opened in, nothing but a hole stands directly on a tag header, the depth of a tag is the number
of tags that are open up to it, and the charge never exceeds the budget.

A refused move leaves the stack as it was.  For the closing of a hole this rests on the nesting:
the hole is taken off before the mode below it is looked at, so a wrong mode there would leave a
changed stack behind, but there is never a wrong one.
-/

namespace EmbeddedMarkup

/-- A move that can be asked for on a stack of modes. -/
inductive ModeCall where
  | openTag
  | enterContent
  | selfClose
  | closeTag
  | openHole
  | closeHole
  | enterExpression
  | exitExpression
deriving DecidableEq, Repr

/-- What a move comes to without the value that it answers with. -/
def ModeStep.unanswered {α : Type} (step : ModeStep α) : ModeStep Unit := fun stack =>
  match step stack with
  | .ok _ after => .ok () after
  | .error refusal after => .error refusal after

/-- Ask for a move at a position. -/
def ModeCall.perform (call : ModeCall) (position : Position) : ModeStep Unit :=
  match call with
  | .openTag => ModeStep.unanswered (ModeStack.openTag position)
  | .enterContent => ModeStack.enterContent position
  | .selfClose => ModeStep.unanswered (ModeStack.selfClose position)
  | .closeTag => ModeStep.unanswered (ModeStack.closeTag position)
  | .openHole => ModeStack.openHole position
  | .closeHole => ModeStep.unanswered (ModeStack.closeHole position)
  | .enterExpression => ModeStack.enterExpression position
  | .exitExpression => fun stack => .ok () stack.exitExpression

namespace Mode

/-- The mode is the header or the content of a tag. -/
def isTag : Mode → Bool
  | .tagHeader _ => true
  | .tagContent _ => true
  | _ => false

/-- The number of tags among modes. -/
def openTags (frames : List Mode) : Nat :=
  frames.countP isTag

/--
The modes, innermost first, as openings and closings leave them, and the depth of the innermost
one: host code outermost, a tag on anything but a header and one deeper, and a hole on the tag
that owns it.
-/
inductive Nested : List Mode → Nat → Prop
  | hostCode : Nested [.hostCode] 0
  | tagHeader {frames : List Mode} {depth : Nat} :
      Nested frames depth →
      (∀ outer, frames.head? ≠ some (.tagHeader outer)) →
      Nested (.tagHeader (depth + 1) :: frames) (depth + 1)
  | tagContent {frames : List Mode} {depth : Nat} :
      Nested frames depth →
      (∀ outer, frames.head? ≠ some (.tagHeader outer)) →
      Nested (.tagContent (depth + 1) :: frames) (depth + 1)
  | hole {frames : List Mode} {depth : Nat} {owner : HoleOwner} :
      Nested frames depth →
      frames.head? = some (owner.frame depth) →
      Nested (.expressionHole depth owner :: frames) depth

theorem openTags_cons (mode : Mode) (frames : List Mode) :
    openTags (mode :: frames) = openTags frames + if mode.isTag then 1 else 0 :=
  List.countP_cons

namespace Nested

variable {frames inner outer : List Mode} {depth : Nat}

/-- The depth of the innermost mode is the number of open tags. -/
theorem depth_eq (nested : Nested frames depth) : depth = openTags frames := by
  induction nested with
  | hostCode => rfl
  | tagHeader _ _ hypothesis =>
      rw [openTags_cons, ← hypothesis]
      rfl
  | tagContent _ _ hypothesis =>
      rw [openTags_cons, ← hypothesis]
      rfl
  | hole _ _ hypothesis =>
      rw [openTags_cons, ← hypothesis]
      rfl

/-- Host code is outermost, and nowhere else. -/
theorem hostCode_outermost (nested : Nested frames depth) :
    ∃ above, frames = above ++ [.hostCode] ∧ .hostCode ∉ above := by
  induction nested with
  | hostCode => exact ⟨[], rfl, by simp⟩
  | tagHeader _ _ hypothesis =>
      obtain ⟨above, rfl, absent⟩ := hypothesis
      exact ⟨_ :: above, rfl, by simpa using absent⟩
  | tagContent _ _ hypothesis =>
      obtain ⟨above, rfl, absent⟩ := hypothesis
      exact ⟨_ :: above, rfl, by simpa using absent⟩
  | hole _ _ hypothesis =>
      obtain ⟨above, rfl, absent⟩ := hypothesis
      exact ⟨_ :: above, rfl, by simpa using absent⟩

/-- There is at least one mode. -/
theorem ne_nil (nested : Nested frames depth) : frames ≠ [] := by
  cases nested <;> simp

/-- The depth is the one of the innermost mode. -/
theorem depth_of_head (nested : Nested frames depth) :
    (frames.head?.getD .hostCode).depth = depth := by
  cases nested <;> rfl

/-- Below any mode but host code there are nested modes, which are not deeper. -/
theorem of_cons
    {mode : Mode}
    (nested : Nested (mode :: outer) depth)
    (above : mode ≠ .hostCode) :
    ∃ below, Nested outer below ∧ below ≤ depth := by
  cases nested with
  | hostCode => exact absurd rfl above
  | tagHeader nested _ => exact ⟨_, nested, by omega⟩
  | tagContent nested _ => exact ⟨_, nested, by omega⟩
  | hole nested _ => exact ⟨_, nested, Nat.le_refl _⟩

/-- The modes from any one outwards are nested themselves. -/
theorem of_append
    (nested : Nested (inner ++ outer) depth)
    (inside : outer ≠ []) :
    ∃ depth, Nested outer depth := by
  induction inner generalizing depth with
  | nil => exact ⟨depth, nested⟩
  | cons mode inner hypothesis =>
      have above : mode ≠ .hostCode := by
        rintro rfl
        rw [List.cons_append] at nested
        generalize empty : inner ++ outer = below at nested
        cases nested with
        | hostCode => exact inside (List.append_eq_nil_iff.mp empty).2
      obtain ⟨below, nested, _⟩ := nested.of_cons above
      exact hypothesis nested

/-- A hole stands directly on the tag that owns it. -/
theorem hole_on_owner
    {owner : HoleOwner}
    {charge : Nat}
    (nested : Nested (inner ++ .expressionHole charge owner :: outer) depth) :
    outer.head? = some (owner.frame charge) := by
  obtain ⟨_, nested⟩ := nested.of_append (by simp)
  cases nested with
  | hole _ owned => exact owned

/-- Only a hole stands directly on a tag header. -/
theorem hole_on_header
    {mode : Mode}
    {charge : Nat}
    (nested : Nested (inner ++ mode :: .tagHeader charge :: outer) depth) :
    ∃ depth owner, mode = .expressionHole depth owner := by
  obtain ⟨_, nested⟩ := nested.of_append (by simp)
  cases nested with
  | tagHeader _ allowed => exact absurd rfl (allowed charge)
  | tagContent _ allowed => exact absurd rfl (allowed charge)
  | hole => exact ⟨_, _, rfl⟩

/-- The depth of a tag is the number of open tags from it outwards. -/
theorem depth_of_tag
    {owner : HoleOwner}
    {charge : Nat}
    (nested : Nested (inner ++ owner.frame charge :: outer) depth) :
    charge = openTags (owner.frame charge :: outer) := by
  obtain ⟨_, nested⟩ := nested.of_append (by simp)
  have counted := nested.depth_eq
  cases owner with
  | tagHeader =>
      cases nested with
      | tagHeader => exact counted
  | tagContent =>
      cases nested with
      | tagContent => exact counted

end Nested
end Mode

namespace ModeStack

variable {stack after : ModeStack} {budget : Nat} {position : Position}

/-- What holds of a stack of modes after every run of moves on a new one with this budget. -/
structure WellNested (budget : Nat) (stack : ModeStack) : Prop where
  /-- Host code is outermost, and nowhere else. -/
  hostCode_outermost : ∃ above, stack.frames = above ++ [.hostCode] ∧ .hostCode ∉ above
  /-- A hole stands directly on a tag of its depth and of the kind that it leads back to. -/
  hole_on_owner : ∀ inner depth owner outer,
    stack.frames = inner ++ .expressionHole depth owner :: outer →
      outer.head? = some (owner.frame depth)
  /-- Only a hole stands directly on a tag header. -/
  hole_on_header : ∀ inner mode depth outer,
    stack.frames = inner ++ mode :: .tagHeader depth :: outer →
      ∃ depth owner, mode = .expressionHole depth owner
  /-- The depth of a tag is the number of tags from the outermost one up to it. -/
  depth_of_tag : ∀ inner depth owner outer,
    stack.frames = inner ++ HoleOwner.frame owner depth :: outer →
      depth = Mode.openTags (owner.frame depth :: outer)
  /-- The depth of the stack is the number of open tags. -/
  depth_eq : stack.depth = Mode.openTags stack.frames
  /-- The charge does not exceed the budget. -/
  nesting_le : stack.nesting ≤ budget
  /-- The budget is the one that the stack was made with. -/
  budget_eq : stack.budget = budget

/-- A refused move leaves the stack as it was, and is never the return from a closed hole. -/
def RefusesInPlace (stack : ModeStack) : Prop :=
  ∀ call position refusal after,
    ModeCall.perform call position stack = .error refusal after →
      after = stack ∧ ∀ mode, refusal.cause ≠ .notAllowed .returnFromHole mode

/-- The invariant that carries a run: the modes are nested, and the charge is within the budget. -/
structure Kept (budget : Nat) (stack : ModeStack) : Prop where
  nested : Mode.Nested stack.frames stack.depth
  nesting_le : stack.nesting ≤ budget
  budget_eq : stack.budget = budget

/-- A stack that is kept is well nested. -/
theorem Kept.wellNested (kept : stack.Kept budget) : stack.WellNested budget where
  hostCode_outermost := kept.nested.hostCode_outermost
  hole_on_owner := by
    intro inner depth owner outer frames
    have nested := kept.nested
    rw [frames] at nested
    exact nested.hole_on_owner
  hole_on_header := by
    intro inner mode depth outer frames
    have nested := kept.nested
    rw [frames] at nested
    exact nested.hole_on_header
  depth_of_tag := by
    intro inner depth owner outer frames
    have nested := kept.nested
    rw [frames] at nested
    exact nested.depth_of_tag
  depth_eq := kept.nested.depth_eq
  nesting_le := kept.nesting_le
  budget_eq := kept.budget_eq

/-- A new stack is kept. -/
theorem kept_initial (budget : Nat) : (initial budget).Kept budget :=
  ⟨.hostCode, Nat.zero_le budget, rfl⟩

/--
What a move comes to on a stack that is kept: a stack that is kept too, or a refusal that leaves
the stack as it was and that is not about the mode below a closed hole.
-/
def Keeps {α : Type} (budget : Nat) (stack : ModeStack) :
    EStateM.Result ModeRefusal ModeStack α → Prop
  | .ok _ after => after.Kept budget
  | .error refusal after =>
      after = stack ∧ ∀ mode, refusal.cause ≠ .notAllowed .returnFromHole mode

/-- A move that the innermost mode does not allow is refused in place. -/
theorem keeps_refuse
    {α : Type}
    {change : ModeChange}
    (other : change ≠ .returnFromHole) :
    stack.Keeps budget (refuse (α := α) change position stack) := by
  refine ⟨rfl, ?_⟩
  intro mode same
  exact other (ModeFault.notAllowed.inj same).1

namespace Kept

/-- Taking off any mode but host code leaves a stack that is kept. -/
theorem pop (kept : stack.Kept budget) (above : stack.mode ≠ .hostCode) :
    stack.pop.Kept budget ∧ stack.frames = stack.mode :: stack.pop.frames := by
  obtain ⟨outer, frames⟩ := frames_of_mode rfl above
  have nested := kept.nested
  rw [frames] at nested
  obtain ⟨below, nested, shallower⟩ := nested.of_cons above
  have popped : stack.pop = { stack with frames := outer } := by
    have inside := List.length_pos_iff.mpr nested.ne_nil
    simp [ModeStack.pop, frames, inside]
  have depth_eq : stack.pop.depth = below := by
    rw [popped]
    exact nested.depth_of_head
  refine ⟨⟨?_, ?_, ?_⟩, ?_⟩
  · rw [depth_eq, popped]
    exact nested
  · have charged := kept.nesting_le
    rw [nesting] at charged ⊢
    rw [depth_eq, popped]
    exact Nat.le_trans (Nat.add_le_add_right shallower _) charged
  · rw [popped]
    exact kept.budget_eq
  · rw [popped]
    exact frames

/-- A tag opens in any mode but a tag header and within the budget, and is one deeper. -/
theorem openTag (kept : stack.Kept budget) : stack.Keeps budget (stack.openTag position) := by
  unfold ModeStack.openTag
  split
  · exact keeps_refuse (by decide)
  · rename_i mode outside
    split
    · exact ⟨rfl, by simp⟩
    · rename_i within
      refine ⟨.tagHeader kept.nested ?_, ?_, kept.budget_eq⟩
      · intro outer header
        exact outside outer (by simp [ModeStack.mode, header])
      · have charged : stack.mode.depth + 1 + stack.expressions ≤ budget := by
          rw [← kept.budget_eq]
          omega
        exact charged

/-- The content of a tag stands where its header stood, with the same depth. -/
theorem enterContent (kept : stack.Kept budget) :
    stack.Keeps budget (stack.enterContent position) := by
  unfold ModeStack.enterContent
  split
  · rename_i depth inside
    obtain ⟨outer, frames⟩ := frames_of_mode inside (by simp)
    have same : stack.depth = depth := by simp [ModeStack.depth, inside, Mode.depth]
    have nested := kept.nested
    rw [frames, same] at nested
    cases nested with
    | @tagHeader _ depth nested allowed =>
        refine ⟨?_, ?_, kept.budget_eq⟩
        · have content := Mode.Nested.tagContent nested allowed
          simpa [replace, frames, ModeStack.depth, ModeStack.mode, Mode.depth] using content
        · have charged := kept.nesting_le
          rw [nesting, same] at charged
          exact charged
  · exact keeps_refuse (by decide)

/-- A header that ends its element is taken off. -/
theorem selfClose (kept : stack.Kept budget) :
    stack.Keeps budget (stack.selfClose position) := by
  unfold ModeStack.selfClose
  split
  · rename_i inside
    exact (kept.pop (by simp [inside])).1
  · exact keeps_refuse (by decide)

/-- The content that a closing tag ends is taken off. -/
theorem closeTag (kept : stack.Kept budget) : stack.Keeps budget (stack.closeTag position) := by
  unfold ModeStack.closeTag
  split
  · rename_i inside
    exact (kept.pop (by simp [inside])).1
  · exact keeps_refuse (by decide)

/-- A hole opens on a tag, and has its depth. -/
theorem push_hole
    {owner : HoleOwner}
    {depth : Nat}
    (kept : stack.Kept budget)
    (inside : stack.mode = owner.frame depth) :
    (stack.push (.expressionHole depth owner)).Kept budget := by
  have same : stack.depth = depth := by
    rw [ModeStack.depth, inside]
    cases owner <;> rfl
  have above : owner.frame depth ≠ .hostCode := by cases owner <;> simp [HoleOwner.frame]
  obtain ⟨outer, frames⟩ := frames_of_mode inside above
  have nested := kept.nested
  rw [same] at nested
  refine ⟨.hole nested (by simp [frames]), ?_, kept.budget_eq⟩
  have charged := kept.nesting_le
  rw [nesting, same] at charged
  exact charged

/-- A `{` opens a hole in a tag, and is refused elsewhere. -/
theorem openHole (kept : stack.Kept budget) : stack.Keeps budget (stack.openHole position) := by
  unfold ModeStack.openHole
  split
  · rename_i depth inside
    have owned : stack.mode = HoleOwner.tagHeader.frame depth := inside
    exact kept.push_hole owned
  · rename_i depth inside
    have owned : stack.mode = HoleOwner.tagContent.frame depth := inside
    exact kept.push_hole owned
  · exact keeps_refuse (by decide)

/-- A hole that closes is taken off: the mode below it is the tag that it was opened on. -/
theorem closeHole (kept : stack.Kept budget) : stack.Keeps budget (stack.closeHole position) := by
  unfold ModeStack.closeHole
  split
  · rename_i depth owner inside
    obtain ⟨popped, frames⟩ := kept.pop (by simp [inside])
    have nested := kept.nested
    rw [frames, inside] at nested
    have owned := @Mode.Nested.hole_on_owner [] _ _ _ _ nested
    have below : stack.pop.mode = owner.frame depth := by
      rw [ModeStack.mode, owned]
      rfl
    have returns : isOwnedBy owner stack.pop.mode = true := by
      rw [below]
      cases owner <;> rfl
    rw [if_pos returns]
    exact popped
  · exact keeps_refuse (by decide)

/-- A host expression is charged within the budget. -/
theorem enterExpression (kept : stack.Kept budget) :
    stack.Keeps budget (stack.enterExpression position) := by
  unfold ModeStack.enterExpression
  split
  · exact ⟨rfl, by simp⟩
  · rename_i within
    refine ⟨kept.nested, ?_, kept.budget_eq⟩
    have charged : stack.nesting + 1 ≤ budget := by
      rw [← kept.budget_eq]
      omega
    exact charged

/-- Giving a charge back, or none if there is none, only lowers the charge. -/
theorem exitExpression (kept : stack.Kept budget) : stack.exitExpression.Kept budget := by
  refine ⟨kept.nested, ?_, kept.budget_eq⟩
  have lower : stack.exitExpression.nesting ≤ stack.nesting :=
    Nat.add_le_add_left (Nat.sub_le _ _) _
  exact Nat.le_trans lower kept.nesting_le

/-- What a move comes to does not depend on the value that it answers with. -/
theorem unanswered
    {α : Type}
    {step : ModeStep α}
    (keeps : stack.Keeps budget (step stack)) :
    stack.Keeps budget (step.unanswered stack) := by
  unfold ModeStep.unanswered
  cases made : step stack with
  | ok _ after =>
      rw [made] at keeps
      exact keeps
  | error refusal after =>
      rw [made] at keeps
      exact keeps

/-- Every move keeps a stack that is kept. -/
theorem perform (kept : stack.Kept budget) (call : ModeCall) (position : Position) :
    stack.Keeps budget (call.perform position stack) := by
  cases call with
  | openTag => exact unanswered kept.openTag
  | enterContent => exact kept.enterContent
  | selfClose => exact unanswered kept.selfClose
  | closeTag => exact unanswered kept.closeTag
  | openHole => exact kept.openHole
  | closeHole => exact unanswered kept.closeHole
  | enterExpression => exact kept.enterExpression
  | exitExpression => exact kept.exitExpression

end Kept

/-- The stack that a move leaves, whether it is made or refused. -/
def leftBy {α : Type} : EStateM.Result ModeRefusal ModeStack α → ModeStack
  | .ok _ after => after
  | .error _ after => after

/-- The stack after a run of moves, each made or refused. -/
def afterCalls (stack : ModeStack) (calls : List (ModeCall × Position)) : ModeStack :=
  calls.foldl (fun stack call => leftBy (call.1.perform call.2 stack)) stack

/-- The stack that a move leaves is kept, also if the move is refused. -/
theorem Kept.leftBy
    {α : Type}
    {result : EStateM.Result ModeRefusal ModeStack α}
    (kept : stack.Kept budget)
    (keeps : stack.Keeps budget result) :
    (ModeStack.leftBy result).Kept budget := by
  cases result with
  | ok _ after => exact keeps
  | error refusal after =>
      obtain ⟨rfl, _⟩ := keeps
      exact kept

/-- A run of moves keeps a stack that is kept. -/
theorem Kept.afterCalls (kept : stack.Kept budget) (calls : List (ModeCall × Position)) :
    (stack.afterCalls calls).Kept budget := by
  induction calls generalizing stack with
  | nil => exact kept
  | cons call calls hypothesis => exact hypothesis (kept.leftBy (kept.perform call.1 call.2))

/--
After any run of moves on a new stack, made or refused and asked for at any positions, the stack
is well nested, and whatever move it refuses next leaves it as it is.
-/
theorem wellNested_afterCalls (budget : Nat) (calls : List (ModeCall × Position)) :
    ((initial budget).afterCalls calls).WellNested budget ∧
      ((initial budget).afterCalls calls).RefusesInPlace := by
  have kept := (kept_initial budget).afterCalls calls
  refine ⟨kept.wellNested, ?_⟩
  intro call position refusal after refused
  have keeps := kept.perform call position
  rw [refused] at keeps
  exact keeps

end ModeStack
end EmbeddedMarkup
