import EmbeddedMarkup.Markup.Reader

/-!
# Verbatim host text

The simplest host language takes expressions as they stand: an expression is the text up to a
closing brace or the end of the line, unless it is markup.  It refuses expressions that start
with an exclamation mark.
-/

namespace EmbeddedMarkup

/-- The forms of verbatim expressions over parts of type `ε`. -/
inductive VerbatimForm (ε : Type) where
  /-- The value of an attribute that is written without one. -/
  | trueConstant
  /-- The value of an empty hole. -/
  | nullConstant
  | string (text : String)
  | markup (inner : Element ε)
  | raw (text : String)

/-- A verbatim expression. -/
structure Verbatim where
  form : VerbatimForm Verbatim
  span : Span

instance : HostConstants Verbatim where
  trueAt span := ⟨.trueConstant, span⟩
  nullAt span := ⟨.nullConstant, span⟩
  textAt text span := ⟨.string text, span⟩

namespace Verbatim

variable {α : Type} (layer : VerbatimForm α → Span → α)

mutual

/-- Work through an expression from its parts up, each form by `layer`. -/
def fold : Verbatim → α
  | ⟨.trueConstant, span⟩ => layer .trueConstant span
  | ⟨.nullConstant, span⟩ => layer .nullConstant span
  | ⟨.string text, span⟩ => layer (.string text) span
  | ⟨.markup inner, span⟩ => layer (.markup (foldElement inner)) span
  | ⟨.raw text, span⟩ => layer (.raw text) span

/-- Work through the expressions of an element. -/
def foldElement : Element Verbatim → Element α
  | ⟨name, attributes, children, closingName, span⟩ =>
      ⟨name, foldAttributes attributes, foldChildren children, closingName, span⟩

/-- Work through the expressions of a tag header. -/
def foldAttributes : List (AttributeItem Verbatim) → List (AttributeItem α)
  | [] => []
  | .named ⟨name, value, span⟩ :: items => .named ⟨name, value.fold, span⟩ :: foldAttributes items
  | .spread ⟨expression, span⟩ :: items => .spread ⟨expression.fold, span⟩ :: foldAttributes items

/-- Work through the expressions of content. -/
def foldChildren : List (Child Verbatim) → List (Child α)
  | [] => []
  | .element element :: children => .element (foldElement element) :: foldChildren children
  | .text text :: children => .text text :: foldChildren children
  | .hole ⟨expression, span⟩ :: children =>
      .hole ⟨expression.fold, span⟩ :: foldChildren children
  | .comment comment :: children => .comment comment :: foldChildren children

end

/-- A character that belongs to a raw expression. -/
def isRawChar (c : Char) : Bool :=
  c != '\x7d' && c != '\n'

/-- Give back the charge of a nested expression behind a success. -/
def finish {start stop : Cursor} (form : VerbatimForm Verbatim) (modes : ModeStack)
    (reached : start ≤ stop) : Outcome (start ≤ ·) Verbatim :=
  .success ⟨form, start.spanTo stop⟩ modes.exitExpression stop reached

/-- Read a verbatim expression. -/
def read (modes : ModeStack) (start : Cursor) : Outcome (start ≤ ·) Verbatim :=
  .afterStep (ModeStack.enterExpression start.position) modes fun _ modes =>
    if start.peek? = some '!' then
      .failure ⟨.stated .delegated "Rejected by delegate", start.position⟩ modes
    else if startsMarkup start.rest then
      (readElementBehind (fun modes inside _ahead => read modes inside) modes start
          start.le_refl).andThen
        fun inner modes _ passed => finish (.markup inner) modes (Cursor.le_of_lt passed)
    else
      finish (.raw (String.ofList (start.textWhile isRawChar))) modes (start.le_skipWhile isRawChar)
termination_by start.size
decreasing_by exact Cursor.size_lt_of_lt _ahead

end Verbatim
end EmbeddedMarkup
