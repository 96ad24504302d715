import EmbeddedMarkup.Proofs.Expression.Steps
import EmbeddedMarkup.Proofs.Markup.Calls

/-!
# Calls of the reader of markup in host expressions

The readers of host expressions ask for markup where an operand starts with a tag, and nowhere else.
So it does not matter what the reader of elements would do elsewhere.
-/

namespace EmbeddedMarkup

open TokenStream

variable {stream : TokenStream}

/-- Reading an operand, with its element read by `reader`. -/
def readOperandWith
    (reader : ElementReader Expression)
    (modes : ModeStack)
    (stream : TokenStream) :
    StreamOutcome (stream.cursor < ·) Expression :=
  stream.onNextStart modes fun start reached =>
    if startsMarkup start.rest then
      match reader start (hostBehind stream.remembers start) modes start start.le_refl with
      | .success element modes stop passed =>
          .success ⟨.markup element, start.spanTo stop⟩ modes (stream.moveTo stop)
            (lt_moveTo reached passed)
      | .failure fault modes => .failure fault modes stream.forget
    else
      stream.onLook modes fun view =>
        match found : view.token.lexeme with
        | .symbol .not =>
            let behind := view.behind
            have passed : stream < behind := view.lt_behind_of_symbol found
            (readExpression signPower modes behind).andThen fun operand modes next read =>
              have passed : stream < next := lt_trans passed read
              .success ⟨.not operand, start.spanTo next.cursor⟩ modes next passed
        | .symbol .minus =>
            let behind := view.behind
            have passed : stream < behind := view.lt_behind_of_symbol found
            (readExpression signPower modes behind).andThen fun operand modes next read =>
              have passed : stream < next := lt_trans passed read
              .success ⟨.negate operand, start.spanTo next.cursor⟩ modes next passed
        | _ =>
            let here := view.here
            have reached : stream ≤ here := view.le_here
            (readPrimary modes here).andThen fun primary modes next read =>
              have passed : stream < next := lt_of_le_of_lt reached read
              (continueOperand start primary modes next).weaken (lt_of_cursor_le passed)

/-- An operand is only read as markup where markup starts. -/
theorem readOperand_eq_readOperandWith
    {reader : ElementReader Expression}
    (readsMarkup : reader.ReadsMarkup)
    (modes : ModeStack)
    (stream : TokenStream) :
    readOperand modes stream = readOperandWith reader modes stream := by
  rw [readOperand, readOperandWith]
  congr
  funext start reached
  split
  · rename_i markup
    generalize readsAlike : reader start _ modes start _ = outcome
    rw [readsMarkup _ _ _ _ _ markup] at readsAlike
    subst readsAlike
    unfold hostBehind
    cases @readElementBehind Expression _ _ _ modes start _ <;> rfl
  · rfl

end EmbeddedMarkup
