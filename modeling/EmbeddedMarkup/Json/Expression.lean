import EmbeddedMarkup.Document
import EmbeddedMarkup.Json.Element
import EmbeddedMarkup.Number.Notation

/-!
# Expressions as JSON

The JSON form of an expression is a fold.  How literal numbers are shown is left open, because
not every reader of JSON keeps large integers and doubles as they are.
-/

namespace EmbeddedMarkup

/-- How literal numbers are shown. -/
structure NumberStyle where
  int : Int → Json
  float : Double → Json

/-- Literal numbers are JSON numbers; infinity, which is none, is null. -/
def NumberStyle.numbers : NumberStyle where
  int value := .number (toString value)
  float value := Json.optional (value.jsonText?.map .number)

namespace Json

/-- An item of an array literal. -/
def arrayItem (item : ArrayItem Json) : Json :=
  .object
    [("key", optional item.key), ("value", item.value), ("unpack", .bool item.unpack),
      ("span", span item.span)]

/-- An argument. -/
def argument (argument : Argument Json) : Json :=
  .object
    [("value", argument.value), ("unpack", .bool argument.unpack), ("span", span argument.span)]

/-- A list of arguments. -/
def arguments (entries : List (Argument Json)) : Json :=
  .array (entries.map argument)

/-- A parameter. -/
def parameter (parameter : Parameter) : Json :=
  .object [("name", .string parameter.name), ("span", span parameter.span)]

/-- A form around the JSON forms of its parts. -/
def form (style : NumberStyle) : ExpressionForm Json → Json
  | .variable name => tagged "Variable" (.string name)
  | .constant name => tagged "ConstFetch" (.string name)
  | .bareName name => tagged "Name" (.string name)
  | .string value => tagged "String" (.string value)
  | .int value => tagged "Int" (style.int value)
  | .float value => tagged "Float" (style.float value)
  | .array items => tagged "Array" (.array (items.map arrayItem))
  | .property owner name nullsafe =>
      tagged "PropertyFetch"
        (.object [("var", owner), ("name", .string name), ("nullsafe", .bool nullsafe)])
  | .methodCall owner name entries nullsafe =>
      tagged "MethodCall"
        (.object
          [("var", owner), ("name", .string name), ("args", arguments entries),
            ("nullsafe", .bool nullsafe)])
  | .staticCall owner name entries =>
      tagged "StaticCall"
        (.object [("class", owner), ("name", .string name), ("args", arguments entries)])
  | .classConstant owner name =>
      tagged "ClassConstFetch" (.object [("class", owner), ("name", .string name)])
  | .call callee entries =>
      tagged "FuncCall" (.object [("callee", callee), ("args", arguments entries)])
  | .entry collection index =>
      tagged "ArrayDimFetch" (.object [("var", collection), ("dim", optional index)])
  | .binary operator left right =>
      tagged "BinaryOp"
        (.object [("op", .string operator.label), ("left", left), ("right", right)])
  | .not operand => tagged "BooleanNot" operand
  | .negate operand => tagged "UnaryMinus" operand
  | .ternary condition ifTrue ifFalse =>
      tagged "Ternary"
        (.object [("cond", condition), ("if_true", optional ifTrue), ("if_false", ifFalse)])
  | .assign target value => tagged "Assign" (.object [("var", target), ("expr", value)])
  | .arrowFunction parameters body =>
      tagged "ArrowFunction"
        (.object [("params", .array (parameters.map parameter)), ("body", body)])
  | .markup inner => tagged "Markup" (element inner)

end Json

/-- The JSON form of an expression. -/
def Expression.toJson (style : NumberStyle) (expression : Expression) : Json :=
  expression.fold fun form span =>
    .object [("kind", Json.form style form), ("span", Json.span span)]

/-- The JSON form of an element. -/
def Element.toJson (style : NumberStyle) (element : Element Expression) : Json :=
  Json.element (element.map (Expression.toJson style))

/-- The JSON form of a document. -/
def Document.toJson (style : NumberStyle) (document : Document) : Json :=
  .object [("elements", .array (document.elements.map (Element.toJson style)))]

end EmbeddedMarkup
