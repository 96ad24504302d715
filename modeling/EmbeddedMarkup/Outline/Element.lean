import EmbeddedMarkup.Markup.Element
import EmbeddedMarkup.Outline

/-!
# Outlines of elements

The outline of an element is built from the outlines of its expressions, so it is the same for
every host language.
-/

namespace EmbeddedMarkup
namespace Outline

variable (positions : Bool)

/-- The outline of an entry of a header. -/
def attributeItem : AttributeItem Outline → Outline
  | .named ⟨name, value, span⟩ =>
      node positions "JSX_Attribute" span [("name", .text name), ("value", value)]
  | .spread ⟨expression, span⟩ =>
      node positions "JSX_SpreadAttribute" span [("expression", expression)]

mutual

/-- The outline of an element. -/
def element : Element Outline → Outline
  | ⟨name, attributes, children, closingName, span⟩ =>
      node positions "JSX_Element" span
        [("name", .text name),
          ("jsxAttributes", list (attributes.map (attributeItem positions))),
          ("children", list (childOutlines children)),
          ("closingName", .text (closingName.getD "null"))]

/-- The outline of a child. -/
def child : Child Outline → Outline
  | .element inner => element inner
  | .text run => node positions "JSX_Text" run.span [("value", .text run.value)]
  | .hole ⟨expression, span⟩ =>
      node positions "JSX_ExpressionContainer" span [("expression", expression)]
  | .comment comment => node positions "JSX_Comment" comment.span [("text", .text comment.text)]

/-- The outlines of children. -/
def childOutlines : List (Child Outline) → List Outline
  | [] => []
  | first :: rest => child first :: childOutlines rest

end

end Outline
end EmbeddedMarkup
