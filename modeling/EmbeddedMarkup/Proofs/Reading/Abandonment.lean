import EmbeddedMarkup.Proofs.Mode.Runs
import EmbeddedMarkup.Proofs.Reading.Endings

/-!
# What is left of the modes

A reader that succeeds leaves the modes as it found them.  One that fails may have opened tags and
holes, which it abandons, but it never takes off a mode that was there before, and the host
expressions that it entered are given back.  So the modes that it found lie under the modes that it
leaves, and reading can go on there.
-/

namespace EmbeddedMarkup

variable {α β : Type} {P Q : Cursor → Prop}

namespace ModeStack

/-- Modes were opened on the stack `before`, in good order, and nothing was taken off or charged. -/
structure LiesUnder (before after : ModeStack) : Prop where
  frames : before.frames <:+ after.frames
  expressions_eq : after.expressions = before.expressions
  kept : ∀ budget, before.Kept budget → after.Kept budget

variable {before middle after : ModeStack} {position : Position} {depth : Nat}

theorem LiesUnder.refl (stack : ModeStack) : stack.LiesUnder stack :=
  ⟨List.suffix_refl _, rfl, fun _ kept => kept⟩

theorem LiesUnder.trans (first : before.LiesUnder middle) (second : middle.LiesUnder after) :
    before.LiesUnder after where
  frames := first.frames.trans second.frames
  expressions_eq := second.expressions_eq.trans first.expressions_eq
  kept budget kept := second.kept budget (first.kept budget kept)

/-- A tag that opens leaves what was there under its header. -/
theorem liesUnder_openTag (opened : before.openTag position = .ok depth after) :
    before.LiesUnder after := by
  have kept (budget : Nat) (kept : before.Kept budget) : after.Kept budget := by
    have keeps := @Kept.openTag before budget position kept
    rwa [opened] at keeps
  obtain ⟨-, -, -, rfl⟩ := openTag_eq_ok.mp opened
  exact ⟨List.suffix_cons _ _, rfl, kept⟩

/-- What is under the header of a tag is under its content. -/
theorem LiesUnder.enterContent
    (under : before.LiesUnder (before.push (.tagHeader depth))) :
    before.LiesUnder (before.push (.tagContent depth)) where
  frames := List.suffix_cons _ _
  expressions_eq := rfl
  kept _ kept := @Kept.enterContent _ _ Position.origin (under.kept _ kept)

/-- A hole that opens leaves its tag under it. -/
theorem liesUnder_push_hole
    {owner : HoleOwner}
    (inside : before.mode = owner.frame depth) :
    before.LiesUnder (before.push (.expressionHole depth owner)) where
  frames := List.suffix_cons _ _
  expressions_eq := rfl
  kept _ kept := kept.push_hole inside

/-- An expression that is given back leaves under it what was there before it was charged. -/
theorem LiesUnder.exitExpression
    (entered : before.enterExpression position = .ok () before.charged)
    (under : before.charged.LiesUnder after) :
    before.LiesUnder after.exitExpression where
  frames := under.frames
  expressions_eq := by
    rw [ModeStack.exitExpression, under.expressions_eq]
    rfl
  kept budget kept := by
    have keeps := @Kept.enterExpression before budget position kept
    rw [entered] at keeps
    exact (under.kept budget keeps).exitExpression

end ModeStack

/-- The outcome of a reader that found the modes `before`: it left them alone, or failed on them. -/
inductive Outcome.Spares (before : ModeStack) : Outcome P α → Prop
  | success {value : α} {stop : Cursor} {reached : P stop} :
      Spares before (.success value before stop reached)
  | failure {fault : Fault} {after : ModeStack} :
      before.LiesUnder after →
      Spares before (.failure fault after)

/-- A reader that ended so left the modes `before` alone, or failed on them. -/
def Ending.Spares
    {O : (Cursor → Prop) → Type → Type}
    {σ : Type}
    {cursor : σ → Cursor}
    [Ending O σ cursor]
    (before : ModeStack)
    (outcome : O P α) : Prop :=
  (Ending.toOutcome outcome).Spares before

namespace Ending.Spares

section Kinds

variable
  {O : (Cursor → Prop) → Type → Type}
  {σ : Type}
  {cursor : σ → Cursor}
  [Ending O σ cursor]
  {before middle : ModeStack}
  {outcome : O P α}

/-- A reader that starts on more modes goes on to one that takes them off. -/
theorem andThen_of_liesUnder
    {next : α → ModeStack → (place : σ) → P (cursor place) → O Q β}
    (under : before.LiesUnder middle)
    (first : Spares middle outcome)
    (second : ∀ value place reached, Spares before (next value middle place reached)) :
    Spares before (Ending.andThen outcome next) := by
  unfold Spares at first ⊢
  generalize told : Ending.toOutcome outcome = ended at first
  cases first with
  | success =>
      obtain ⟨place, reached, -, rfl⟩ := exists_eq_success told
      rw [andThen_success]
      exact second _ _ _
  | failure abandoned =>
      rw [toOutcome_andThen told]
      exact .failure (under.trans abandoned)

theorem andThen
    {next : α → ModeStack → (place : σ) → P (cursor place) → O Q β}
    (first : Spares before outcome)
    (second : ∀ value place reached, Spares before (next value before place reached)) :
    Spares before (Ending.andThen outcome next) :=
  andThen_of_liesUnder (.refl before) first second

theorem success {value : α} {place : σ} {reached : P (cursor place)} :
    Spares before (Ending.success value before place reached : O P α) := by
  rw [Spares, toOutcome_success]
  exact .success

theorem map {f : α → β} (spares : Spares before outcome) :
    Spares before (Ending.map f outcome) := by
  rw [map_eq_andThen]
  exact spares.andThen fun _ _ _ => success

theorem weaken {weaker : ∀ stop, P stop → Q stop} (spares : Spares before outcome) :
    Spares before (Ending.weaken outcome weaker) := by
  rw [weaken_eq_andThen]
  exact spares.andThen fun _ _ _ => success

theorem toOutcome (spares : Spares before outcome) :
    Spares before (Ending.toOutcome outcome) :=
  spares

end Kinds

section Markup

variable {before middle : ModeStack}

/-- A fault found by a reader itself leaves the modes as they are. -/
theorem here {fault : Fault} : Spares before (.failure fault before : Outcome P α) :=
  .failure (.refl before)

/-- A move that is allowed leads on. -/
theorem afterStep
    {step : ModeStep α}
    {value : α}
    {modes : ModeStack}
    {next : α → ModeStack → Outcome Q β}
    (allowed : step modes = .ok value middle)
    (second : Spares before (next value middle)) :
    Spares before (Outcome.afterStep step modes next) := by
  rw [Outcome.afterStep, allowed]
  exact second

/-- A reading that leaves the modes alone leads on, or fails on them. -/
theorem afterRead
    {read : Except Fault (Read P α)}
    {next : α → (stop : Cursor) → P stop → Outcome Q β}
    (under : before.LiesUnder middle)
    (second : ∀ value stop reached, Spares before (next value stop reached)) :
    Spares before (Outcome.afterRead read middle next) := by
  unfold Outcome.afterRead
  cases read with
  | ok read => exact second _ _ _
  | error fault => exact .failure under

end Markup

section Tokens

variable {before : ModeStack} {outcome : StreamOutcome P α} {stream : TokenStream}

/-- A fault found at a token leaves the modes as they are. -/
theorem atToken {fault : Fault} :
    Spares before (.failure fault before stream : StreamOutcome P α) :=
  .failure (.refl before)

/-- An expression is given back whether it was read or not. -/
theorem exitExpression
    {position : Position}
    (entered : before.enterExpression position = .ok () before.charged)
    (spares : Spares before.charged outcome) :
    Spares before (outcome.mapModes ModeStack.exitExpression) := by
  cases outcome with
  | success =>
      cases spares
      exact .success
  | failure =>
      cases spares with
      | failure abandoned => exact .failure (abandoned.exitExpression entered)

/-- A look leads on, or fails where the modes are as they were. -/
theorem onLook
    {next : stream.View → StreamOutcome P α}
    (second : ∀ lexeme span here behind still reached passed,
      Spares before (next ⟨⟨lexeme, span⟩, here, behind, still, reached, passed⟩)) :
    Spares before (stream.onLook before next) := by
  unfold TokenStream.onLook
  split
  · exact second _ _ _ _ _ _ _
  · exact atToken

theorem onNextStart
    {next : (start : Cursor) → stream.cursor ≤ start → StreamOutcome P α}
    (second : ∀ start reached, Spares before (next start reached)) :
    Spares before (stream.onNextStart before next) := by
  unfold TokenStream.onNextStart
  split
  · exact second _ _
  · exact atToken

end Tokens

end Ending.Spares
end EmbeddedMarkup
