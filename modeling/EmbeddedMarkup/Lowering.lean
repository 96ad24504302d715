import EmbeddedMarkup.Expression.Syntax

/-!
# Markup written as arrays

An array literal such as `['a', ['href' => $url], 'text', $child]` describes an element.  Its
first item is the name.  Its second item, if there is one, is an array literal of attributes:
items with a key are attributes and items without one are spreads.  All further items are
children: strings are text, and empty ones nothing; everything else is a hole, unless it is or
becomes markup.

Lowering turns every such array in an expression into the element it describes.
-/

namespace EmbeddedMarkup

/-- What an array literal says about the element that it describes. -/
structure MarkupShape where
  name : String
  /-- The name of each attribute; a spread has none. -/
  keys : List (Option String)

/-- The name that an item of an array of attributes gives, or none for a spread. -/
def attributeKey? (item : ArrayItem Expression) : Option (Option String) :=
  match item.key with
  | none => some none
  | some ⟨.string key, _⟩ => some (some key)
  | some _ => none

/-- The names that the item behind the name of an element gives to attributes. -/
def attributeKeys? : Option (ArrayItem Expression) → Option (List (Option String))
  | none => some []
  | some item =>
      match item.value.form with
      | .array items => items.mapM attributeKey?
      | _ => none

/-- The element that the items of an array literal describe, if they describe one. -/
def markupShape? : List (ArrayItem Expression) → Option MarkupShape
  | [] => none
  | first :: rest =>
      match first.value.form with
      | .string name =>
          if first.unpack then none else (attributeKeys? rest.head?).map fun keys => ⟨name, keys⟩
      | _ => none

/-- The items of an array literal describe an element. -/
def isMarkupArray (items : List (ArrayItem Expression)) : Bool :=
  (markupShape? items).isSome

/-- An expression before and after lowering. -/
structure Lowered where
  before : Expression
  after : Expression
  /-- The items of an array literal, each of them lowered. -/
  items : List (ArrayItem Expression)

namespace Lowered

/-- The entry of a header that a lowered item describes under a key. -/
def attributeItem (key : Option String) (item : ArrayItem Expression) :
    AttributeItem Expression :=
  match key with
  | some name => .named ⟨name, item.value, item.span⟩
  | none => .spread ⟨item.value, item.span⟩

/-- The child that a further item describes, if it describes one. -/
def child? (value : Lowered) : Option (Child Expression) :=
  match value.before.form with
  | .string text => if text.isEmpty then none else some (.text ⟨text, value.before.span⟩)
  | _ =>
      match value.after.form with
      | .markup element => some (.element element)
      | _ => some (.hole ⟨value.after, value.before.span⟩)

/-- The element that the items of an array literal describe. -/
def element (shape : MarkupShape) (items : List (ArrayItem Lowered)) (span : Span) :
    Element Expression :=
  let attributes := (items[1]?.map fun item => item.value.items).getD []
  { name := shape.name
    attributes := List.zipWith attributeItem shape.keys attributes
    children := (items.drop 2).filterMap fun item => item.value.child?
    closingName := some shape.name
    span := span }

/-- Lower a form whose parts are lowered.  The class of a static access is left as it is. -/
def layer (form : ExpressionForm Lowered) (span : Span) : Lowered :=
  let before := form.map Lowered.before
  let after := form.map Lowered.after
  match form with
  | .array items =>
      let lowered :=
        match markupShape? (items.map (·.map Lowered.before)) with
        | some shape => .markup (element shape items span)
        | none => after
      ⟨⟨before, span⟩, ⟨lowered, span⟩, items.map (·.map Lowered.after)⟩
  | .staticCall owner name arguments =>
      ⟨⟨before, span⟩,
        ⟨.staticCall owner.before name (arguments.map (·.map Lowered.after)), span⟩, []⟩
  | .classConstant owner name =>
      ⟨⟨before, span⟩, ⟨.classConstant owner.before name, span⟩, []⟩
  | _ => ⟨⟨before, span⟩, ⟨after, span⟩, []⟩

end Lowered

/-- Turn the arrays in an expression that describe elements into these elements. -/
def Expression.lower (expression : Expression) : Expression :=
  (expression.fold Lowered.layer).after

/-- Turn the arrays in the expressions of an element that describe elements into these. -/
def Element.lower (element : Element Expression) : Element Expression :=
  element.map Expression.lower

end EmbeddedMarkup
