import EmbeddedMarkup.Json
import EmbeddedMarkup.Markup.Element

/-!
# Elements as JSON

An element is an object of its fields.  What may be one of several things is an object with one
field, whose name says which it is.  The JSON form of an element is built from the JSON forms of
its expressions.
-/

namespace EmbeddedMarkup
namespace Json

/-- A span. -/
def span (span : Span) : Json :=
  .object
    [("start", .nat span.start), ("end", .nat span.stop), ("line", .nat span.line),
      ("column", .nat span.column), ("end_line", .nat span.endLine)]

/-- An attribute. -/
def namedAttribute (item : Attribute Json) : Json :=
  .object [("name", .string item.name), ("value", item.value), ("span", span item.span)]

/-- A node that holds one expression, such as a spread or a hole. -/
def expressionHolder (expression : Json) (place : Span) : Json :=
  .object [("expression", expression), ("span", span place)]

/-- An entry of a header. -/
def attributeItem : AttributeItem Json → Json
  | .named item => tagged "Attribute" (namedAttribute item)
  | .spread item => tagged "Spread" (expressionHolder item.expression item.span)

mutual

/-- An element. -/
def element : Element Json → Json
  | ⟨name, attributes, children, closingName, place⟩ =>
      .object
        [("name", .string name),
          ("attributes", .array (attributes.map attributeItem)),
          ("children", .array (childValues children)),
          ("closing_name", optional (closingName.map .string)),
          ("span", span place)]

/-- A child. -/
def child : Child Json → Json
  | .element inner => tagged "Element" (element inner)
  | .text text =>
      tagged "Text" (.object [("value", .string text.value), ("span", span text.span)])
  | .hole hole => tagged "Expression" (expressionHolder hole.expression hole.span)
  | .comment comment =>
      tagged "Comment" (.object [("text", .string comment.text), ("span", span comment.span)])

/-- Children. -/
def childValues : List (Child Json) → List Json
  | [] => []
  | first :: rest => child first :: childValues rest

end

end Json
end EmbeddedMarkup
