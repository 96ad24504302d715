import EmbeddedMarkup.Document
import EmbeddedMarkup.Number.Notation
import EmbeddedMarkup.Outline.Element

/-!
# Outlines of expressions

The outline of an expression is a fold: each form is laid out around the outlines of its parts.
-/

namespace EmbeddedMarkup

namespace Outline

variable (positions : Bool)

/-- The outline of an item of an array literal. -/
def arrayItem (item : ArrayItem Outline) : Outline :=
  node positions "ArrayItem" item.span
    [("key", optional item.key), ("value", item.value), ("byRef", flag false),
      ("unpack", flag item.unpack)]

/-- The outline of an argument. -/
def argument (argument : Argument Outline) : Outline :=
  node positions "Arg" argument.span
    [("name", .text "null"), ("value", argument.value), ("byRef", flag false),
      ("unpack", flag argument.unpack)]

/-- The outline of a list of arguments. -/
def arguments (entries : List (Argument Outline)) : Outline :=
  list (entries.map (argument positions))

/-- The outline of a parameter. -/
def parameter (parameter : Parameter) : Outline :=
  node positions "Param" parameter.span
    [("var", node positions "Expr_Variable" parameter.span [("name", .text parameter.name)])]

/-- The outline of a form around the outlines of its parts. -/
def form (form : ExpressionForm Outline) (span : Span) : Outline :=
  let named (kind name : String) := node positions kind span [("name", .text name)]
  match form with
  | .variable name => named "Expr_Variable" name
  | .constant name => node positions "Expr_ConstFetch" span [("name", named "Name" name)]
  | .bareName name => named "Name" name
  | .string value => node positions "Scalar_String" span [("value", .text value)]
  | .int value => node positions "Scalar_Int" span [("value", .text (toString value))]
  | .float value => node positions "Scalar_Float" span [("value", .text value.plainText)]
  | .array items =>
      node positions "Expr_Array" span [("items", list (items.map (arrayItem positions)))]
  | .property object name nullsafe =>
      node positions (if nullsafe then "Expr_NullsafePropertyFetch" else "Expr_PropertyFetch") span
        [("var", object), ("name", named "Identifier" name)]
  | .methodCall object name entries nullsafe =>
      node positions (if nullsafe then "Expr_NullsafeMethodCall" else "Expr_MethodCall") span
        [("var", object), ("name", named "Identifier" name),
          ("args", arguments positions entries)]
  | .staticCall owner name entries =>
      node positions "Expr_StaticCall" span
        [("class", owner), ("name", named "Identifier" name),
          ("args", arguments positions entries)]
  | .classConstant owner name =>
      node positions "Expr_ClassConstFetch" span
        [("class", owner), ("name", named "Identifier" name)]
  | .call callee entries =>
      node positions "Expr_FuncCall" span
        [("name", callee), ("args", arguments positions entries)]
  | .entry collection index =>
      node positions "Expr_ArrayDimFetch" span [("var", collection), ("dim", optional index)]
  | .binary operator left right =>
      node positions ("Expr_BinaryOp_" ++ operator.label) span [("left", left), ("right", right)]
  | .not operand => node positions "Expr_BooleanNot" span [("expr", operand)]
  | .negate operand => node positions "Expr_UnaryMinus" span [("expr", operand)]
  | .ternary condition ifTrue ifFalse =>
      node positions "Expr_Ternary" span
        [("cond", condition), ("if", optional ifTrue), ("else", ifFalse)]
  | .assign target value =>
      node positions "Expr_Assign" span [("var", target), ("expr", value)]
  | .arrowFunction parameters body =>
      node positions "Expr_ArrowFunction" span
        [("params", list (parameters.map (parameter positions))), ("expr", body)]
  | .markup inner => element positions inner

/-- The outline of an expression. -/
def ofExpression (expression : Expression) : Outline :=
  expression.fold (form positions)

/-- The outline of an element. -/
def ofElement (inner : Element Expression) : Outline :=
  element positions (inner.map (ofExpression positions))

/-- The outline of a document. -/
def ofDocument (document : Document) : Outline :=
  list (document.elements.map (ofElement positions))

end Outline
end EmbeddedMarkup
