import EmbeddedMarkup.Expression.Reader

/-!
# Expressions in markup and expressions alone

The host language of this library is a delegate for markup.  Its expressions can also be read
alone, from a text that holds nothing else.
-/

namespace EmbeddedMarkup

/-- The reader of host expressions, for markup. -/
def hostDelegate : Delegate Expression := fun modes start =>
  (readExpression 0 modes (.fresh true start)).toOutcome.weaken fun _ => Cursor.le_of_lt

/-- The expression that a text consists of. -/
def Expression.ofText (text : String) (budget : Nat) : Except Fault Expression :=
  match readExpression 0 (.initial budget) (.fresh true (.ofText text)) with
  | .failure fault _ _ => .error fault
  | .success expression _ stream _ =>
      match stream.look with
      | .error fault => .error (Fault.ofLexical fault)
      | .ok view =>
          if view.token.lexeme = .endOfInput then .ok expression
          else .error (.grammar (.unexpected view.token.lexeme) view.token.span)

end EmbeddedMarkup
