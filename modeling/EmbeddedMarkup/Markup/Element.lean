import EmbeddedMarkup.Text.Position

/-!
# Elements

Markup is a tree of elements.  The host expressions in it are of a type `ε` that the tree leaves
open, so one tree serves every host language.
-/

namespace EmbeddedMarkup

/-- What markup asks of host expressions: the constants that it writes itself. -/
class HostConstants (ε : Type) where
  /-- The value of an attribute that is written without one. -/
  trueAt : Span → ε
  /-- The value of an empty hole. -/
  nullAt : Span → ε
  /-- The value of a quoted attribute, which has no escapes. -/
  textAt : String → Span → ε

/-- An attribute with a name. -/
structure Attribute (ε : Type) where
  name : String
  value : ε
  span : Span

/-- An expression whose entries become attributes. -/
structure Spread (ε : Type) where
  expression : ε
  span : Span

/-- An entry in the header of a tag. -/
inductive AttributeItem (ε : Type) where
  | named (item : Attribute ε)
  | spread (item : Spread ε)

/-- Literal text in normal form. -/
structure LiteralText where
  value : String
  span : Span
deriving DecidableEq, Repr

/-- A comment in content, with its delimiters. -/
structure Comment where
  text : String
  span : Span
deriving DecidableEq, Repr

/-- A host expression in content. -/
structure Hole (ε : Type) where
  expression : ε
  span : Span

mutual

/--
An element.  A fragment has an empty name.  An element that ends with its opening tag has no
closing name and no children; every other one is closed by its own name.
-/
structure Element (ε : Type) where
  name : String
  attributes : List (AttributeItem ε)
  children : List (Child ε)
  closingName : Option String
  span : Span

/-- What may stand in the content of an element. -/
inductive Child (ε : Type) where
  | element (element : Element ε)
  | text (text : LiteralText)
  | hole (hole : Hole ε)
  | comment (comment : Comment)

end

/-- A closing tag that does not repeat the name of the opening tag. -/
structure TagMismatch where
  opening : String
  closing : String
deriving DecidableEq, Repr

/-- What a mismatch says. -/
def TagMismatch.message (mismatch : TagMismatch) : String :=
  "JSX element has mismatched opening and closing tags: '<" ++ mismatch.opening ++
    ">' and '</" ++ mismatch.closing ++ ">'"

namespace Element

variable {ε : Type}

/-- An element with a closing tag, which has to repeat the name. -/
def closed
    (name : String)
    (attributes : List (AttributeItem ε))
    (children : List (Child ε))
    (closing : String)
    (span : Span) :
    Except TagMismatch (Element ε) :=
  if closing = name then .ok ⟨name, attributes, children, some closing, span⟩
  else .error ⟨name, closing⟩

/-- An element that ends with its opening tag. -/
def selfClosing (name : String) (attributes : List (AttributeItem ε)) (span : Span) :
    Element ε :=
  ⟨name, attributes, [], none, span⟩

/-- A fragment groups children under no name. -/
def isFragment (element : Element ε) : Bool :=
  element.name.isEmpty

/-- The element ends with its opening tag. -/
def isSelfClosing (element : Element ε) : Bool :=
  element.closingName.isNone

/-- The first attribute of a name; spreads are passed over. -/
def attribute? (element : Element ε) (name : String) : Option (Attribute ε) :=
  element.attributes.findSome? fun
    | .named item => if item.name = name then some item else none
    | .spread _ => none

end Element

variable {ε δ : Type}

/-- Change the expression of an entry. -/
def AttributeItem.map (f : ε → δ) : AttributeItem ε → AttributeItem δ
  | .named ⟨name, value, span⟩ => .named ⟨name, f value, span⟩
  | .spread ⟨expression, span⟩ => .spread ⟨f expression, span⟩

mutual

/-- Change the expressions of an element. -/
def Element.map (f : ε → δ) : Element ε → Element δ
  | ⟨name, attributes, children, closingName, span⟩ =>
      ⟨name, attributes.map (·.map f), Child.mapAll f children, closingName, span⟩

/-- Change the expressions of a child. -/
def Child.map (f : ε → δ) : Child ε → Child δ
  | .element element => .element (element.map f)
  | .text text => .text text
  | .hole ⟨expression, span⟩ => .hole ⟨f expression, span⟩
  | .comment comment => .comment comment

/-- Change the expressions of children. -/
def Child.mapAll (f : ε → δ) : List (Child ε) → List (Child δ)
  | [] => []
  | child :: children => child.map f :: Child.mapAll f children

end

end EmbeddedMarkup
