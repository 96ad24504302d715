import EmbeddedMarkup.Expression.Outcome

/-!
# Kinds of outcomes

A reader of markup that succeeds stands at a cursor, and a reader of tokens at a stream.  Apart
from that their outcomes are alike: a success hands its value, its modes and its place to what is
read behind it, and a failure is handed on as it is.  What follows from this alone is shown for
both kinds of outcomes at once.
-/

namespace EmbeddedMarkup

/-- A kind of outcome, whose successes stand at places that have a cursor. -/
class Ending
    (O : (Cursor → Prop) → Type → Type)
    (σ : outParam Type)
    (cursor : outParam (σ → Cursor)) where
  success {P : Cursor → Prop} {α : Type}
    (value : α)
    (modes : ModeStack)
    (place : σ)
    (reached : P (cursor place)) : O P α
  andThen {P Q : Cursor → Prop} {α β : Type}
    (outcome : O P α)
    (next : α → ModeStack → (place : σ) → P (cursor place) → O Q β) : O Q β
  map {P : Cursor → Prop} {α β : Type} (f : α → β) (outcome : O P α) : O P β
  weaken {P Q : Cursor → Prop} {α : Type}
    (outcome : O P α)
    (weaker : ∀ stop, P stop → Q stop) : O Q α
  /-- What a reader of markup is told. -/
  toOutcome {P : Cursor → Prop} {α : Type} (outcome : O P α) : Outcome P α
  success_inj {P : Cursor → Prop} {α : Type}
    {value value' : α}
    {modes modes' : ModeStack}
    {place place' : σ}
    {reached : P (cursor place)}
    {reached' : P (cursor place')} :
    success value modes place reached = success value' modes' place' reached' →
      value = value' ∧ modes = modes' ∧ place = place'
  andThen_success {P Q : Cursor → Prop} {α β : Type}
    (value : α)
    (modes : ModeStack)
    (place : σ)
    (reached : P (cursor place))
    (next : α → ModeStack → (place : σ) → P (cursor place) → O Q β) :
    andThen (success value modes place reached) next = next value modes place reached
  map_eq_andThen {P : Cursor → Prop} {α β : Type} (f : α → β) (outcome : O P α) :
    map f outcome =
      andThen outcome fun value modes place reached => success (f value) modes place reached
  weaken_eq_andThen {P Q : Cursor → Prop} {α : Type}
    (outcome : O P α)
    (weaker : ∀ stop, P stop → Q stop) :
    weaken outcome weaker =
      andThen outcome fun value modes place reached =>
        success value modes place (weaker (cursor place) reached)
  toOutcome_success {P : Cursor → Prop} {α : Type}
    (value : α)
    (modes : ModeStack)
    (place : σ)
    (reached : P (cursor place)) :
    toOutcome (success value modes place reached) =
      .success value modes (cursor place) reached
  exists_eq_success {P : Cursor → Prop} {α : Type}
    {outcome : O P α}
    {value : α}
    {modes : ModeStack}
    {stop : Cursor}
    {reached : P stop} :
    toOutcome outcome = .success value modes stop reached →
      ∃ place reached, cursor place = stop ∧ outcome = success value modes place reached
  /-- A failure is handed on. -/
  toOutcome_andThen {P Q : Cursor → Prop} {α β : Type}
    {outcome : O P α}
    {next : α → ModeStack → (place : σ) → P (cursor place) → O Q β}
    {fault : Fault}
    {modes : ModeStack} :
    toOutcome outcome = .failure fault modes →
      toOutcome (andThen outcome next) = .failure fault modes

namespace Ending

variable
  {O : (Cursor → Prop) → Type → Type}
  {σ : Type}
  {cursor : σ → Cursor}
  [Ending O σ cursor]
  {α β : Type}
  {P Q : Cursor → Prop}
  {other : β}
  {after : ModeStack}
  {behind : σ}

/-- Going on behind a success succeeds if the second reader does there. -/
theorem exists_andThen_eq_success_iff
    (outcome : O P α)
    (next : α → ModeStack → (place : σ) → P (cursor place) → O Q β) :
    (∃ passed, andThen outcome next = success other after behind passed) ↔
      ∃ value modes place, (∃ reached, outcome = success value modes place reached) ∧
        ∃ reached passed, next value modes place reached = success other after behind passed := by
  constructor
  · rintro ⟨passed, whole⟩
    cases told : toOutcome outcome with
    | success value modes stop there =>
        obtain ⟨place, reached, -, rfl⟩ := exists_eq_success told
        rw [andThen_success] at whole
        exact ⟨value, modes, place, ⟨reached, rfl⟩, reached, passed, whole⟩
    | failure fault modes =>
        have failed : toOutcome (andThen outcome next) = .failure fault modes :=
          toOutcome_andThen told
        rw [whole, toOutcome_success] at failed
        cases failed
  · rintro ⟨value, modes, place, ⟨reached, rfl⟩, _, passed, second⟩
    exact ⟨passed, (andThen_success _ _ _ _ _).trans second⟩

/-- A success with another value is one with a value that it comes from. -/
theorem exists_map_eq_success_iff (f : α → β) (outcome : O P α) :
    (∃ passed, map f outcome = success other after behind passed) ↔
      ∃ value, (∃ reached, outcome = success value after behind reached) ∧ f value = other := by
  rw [map_eq_andThen, exists_andThen_eq_success_iff]
  constructor
  · rintro ⟨value, modes, place, succeeded, _, _, equal⟩
    obtain ⟨rfl, rfl, rfl⟩ := success_inj equal
    exact ⟨value, succeeded, rfl⟩
  · rintro ⟨value, ⟨reached, rfl⟩, rfl⟩
    exact ⟨value, after, behind, ⟨reached, rfl⟩, reached, reached, rfl⟩

end Ending

instance : Ending Outcome Cursor (fun stop => stop) where
  success := .success
  andThen := .andThen
  map := .map
  weaken := .weaken
  toOutcome outcome := outcome
  success_inj same := by
    cases same
    exact ⟨rfl, rfl, rfl⟩
  andThen_success _ _ _ _ _ := rfl
  map_eq_andThen _ _ := rfl
  weaken_eq_andThen _ _ := rfl
  toOutcome_success _ _ _ _ := rfl
  exists_eq_success succeeded := ⟨_, _, rfl, succeeded⟩
  toOutcome_andThen failed := by
    subst failed
    rfl

instance : Ending StreamOutcome TokenStream TokenStream.cursor where
  success := .success
  andThen := .andThen
  map := .map
  weaken := .weaken
  toOutcome := StreamOutcome.toOutcome
  success_inj same := by
    cases same
    exact ⟨rfl, rfl, rfl⟩
  andThen_success _ _ _ _ _ := rfl
  map_eq_andThen _ _ := rfl
  weaken_eq_andThen _ _ := rfl
  toOutcome_success _ _ _ _ := rfl
  exists_eq_success {P α outcome value modes stop reached} succeeded := by
    cases outcome <;> cases succeeded
    exact ⟨_, reached, rfl, rfl⟩
  toOutcome_andThen {P Q α β outcome next fault modes} failed := by
    cases outcome <;> cases failed
    rfl

end EmbeddedMarkup
