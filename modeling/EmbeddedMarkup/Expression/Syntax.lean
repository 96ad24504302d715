import EmbeddedMarkup.Markup.Element
import EmbeddedMarkup.Number.Double
import EmbeddedMarkup.Text.Character

/-!
# Host expressions

An expression is a form with a span.  A form is one layer of syntax over parts of a type that it
leaves open; in an expression these parts are expressions.  A part may also be an element, whose
own expressions are expressions of the same language again.

Because of the layers, a function that works through whole expressions is given by what it does
with one form whose parts are worked through already: it is a fold.
-/

namespace EmbeddedMarkup

/-- An operator with two operands. -/
inductive BinaryOperator where
  | concat
  | plus
  | minus
  | mul
  | div
  | mod
  | equal
  | notEqual
  | identical
  | notIdentical
  | smaller
  | smallerOrEqual
  | greater
  | greaterOrEqual
  | booleanAnd
  | booleanOr
  | logicalAnd
  | logicalOr
  | logicalXor
  | coalesce
deriving DecidableEq, Repr

/-- The name of an operator where trees are shown. -/
def BinaryOperator.label : BinaryOperator → String
  | .concat => "Concat"
  | .plus => "Plus"
  | .minus => "Minus"
  | .mul => "Mul"
  | .div => "Div"
  | .mod => "Mod"
  | .equal => "Equal"
  | .notEqual => "NotEqual"
  | .identical => "Identical"
  | .notIdentical => "NotIdentical"
  | .smaller => "Smaller"
  | .smallerOrEqual => "SmallerOrEqual"
  | .greater => "Greater"
  | .greaterOrEqual => "GreaterOrEqual"
  | .booleanAnd => "BooleanAnd"
  | .booleanOr => "BooleanOr"
  | .logicalAnd => "LogicalAnd"
  | .logicalOr => "LogicalOr"
  | .logicalXor => "LogicalXor"
  | .coalesce => "Coalesce"

/-- An item of an array literal. -/
structure ArrayItem (ε : Type) where
  key : Option ε
  value : ε
  /-- The item is written with an ellipsis and stands for the entries of its value. -/
  unpack : Bool
  span : Span

/-- An argument of a call. -/
structure Argument (ε : Type) where
  value : ε
  /-- The argument is written with an ellipsis and stands for the entries of its value. -/
  unpack : Bool
  span : Span

/-- A parameter of an arrow function, without its `$`. -/
structure Parameter where
  name : String
  span : Span
deriving DecidableEq, Repr

/-- The forms of expressions over parts of type `ε`. -/
inductive ExpressionForm (ε : Type) where
  /-- A variable, without its `$`. -/
  | variable (name : String)
  /-- A name that stands for a constant. -/
  | constant (name : String)
  /-- A name that is called or that names a class. -/
  | bareName (name : String)
  | string (value : String)
  | int (value : Int)
  | float (value : Double)
  | array (items : List (ArrayItem ε))
  /-- A property; `nullsafe` accepts that there is no object. -/
  | property (object : ε) (name : String) (nullsafe : Bool)
  /-- A call of a method; `nullsafe` accepts that there is no object. -/
  | methodCall (object : ε) (name : String) (arguments : List (Argument ε)) (nullsafe : Bool)
  /-- A call of a method of a class. -/
  | staticCall (owner : ε) (name : String) (arguments : List (Argument ε))
  /-- A constant of a class. -/
  | classConstant (owner : ε) (name : String)
  | call (callee : ε) (arguments : List (Argument ε))
  /-- An entry of an array; without an index, a new one. -/
  | entry (collection : ε) (index : Option ε)
  | binary (operator : BinaryOperator) (left right : ε)
  | not (operand : ε)
  | negate (operand : ε)
  /-- A choice; without a middle part, the condition is also the first alternative. -/
  | ternary (condition : ε) (ifTrue : Option ε) (ifFalse : ε)
  | assign (target value : ε)
  | arrowFunction (parameters : List Parameter) (body : ε)
  | markup (element : Element ε)

section Map

variable {ε δ : Type} (f : ε → δ)

/-- Change the key and the value of an item. -/
def ArrayItem.map (item : ArrayItem ε) : ArrayItem δ :=
  ⟨item.key.map f, f item.value, item.unpack, item.span⟩

/-- Change the value of an argument. -/
def Argument.map (argument : Argument ε) : Argument δ :=
  ⟨f argument.value, argument.unpack, argument.span⟩

/-- Change the parts of a form. -/
def ExpressionForm.map : ExpressionForm ε → ExpressionForm δ
  | .variable name => .variable name
  | .constant name => .constant name
  | .bareName name => .bareName name
  | .string value => .string value
  | .int value => .int value
  | .float value => .float value
  | .array items => .array (items.map (·.map f))
  | .property object name nullsafe => .property (f object) name nullsafe
  | .methodCall object name arguments nullsafe =>
      .methodCall (f object) name (arguments.map (·.map f)) nullsafe
  | .staticCall owner name arguments => .staticCall (f owner) name (arguments.map (·.map f))
  | .classConstant owner name => .classConstant (f owner) name
  | .call callee arguments => .call (f callee) (arguments.map (·.map f))
  | .entry collection index => .entry (f collection) (index.map f)
  | .binary operator left right => .binary operator (f left) (f right)
  | .not operand => .not (f operand)
  | .negate operand => .negate (f operand)
  | .ternary condition ifTrue ifFalse => .ternary (f condition) (ifTrue.map f) (f ifFalse)
  | .assign target value => .assign (f target) (f value)
  | .arrowFunction parameters body => .arrowFunction parameters (f body)
  | .markup element => .markup (element.map f)

end Map

/-- A host expression. -/
structure Expression where
  form : ExpressionForm Expression
  span : Span

instance : HostConstants Expression where
  trueAt span := ⟨.constant "true", span⟩
  nullAt span := ⟨.constant "null", span⟩
  textAt value span := ⟨.string value, span⟩

namespace Expression

/-- The expression is the constant of this name, in any letter case. -/
def isConstant (expression : Expression) (name : String) : Bool :=
  match expression.form with
  | .constant spelled => sameWord spelled name
  | _ => false

/-- A value may be assigned to variables, properties, entries and array literals. -/
def isAssignable (expression : Expression) : Bool :=
  match expression.form with
  | .variable _ | .property .. | .entry .. | .array _ => true
  | _ => false

/-- Numbers, array literals and markup are never called. -/
def isCallable (expression : Expression) : Bool :=
  match expression.form with
  | .int _ | .float _ | .array _ | .markup _ => false
  | _ => true

/-- A name that was neither called nor used as a class stands for a constant. -/
def nameAsConstant (expression : Expression) : Expression :=
  match expression.form with
  | .bareName name => ⟨.constant name, expression.span⟩
  | _ => expression

variable {α : Type} (layer : ExpressionForm α → Span → α)

/-
The recursion is written out for every list and option that parts of a form stand in; the
theorem `fold_mk` states the result as one equation.
-/

mutual

/-- Work through an expression from its parts up, each form by `layer`. -/
def fold : Expression → α
  | ⟨form, span⟩ => layer (foldForm form) span

/-- Work through the parts of a form. -/
def foldForm : ExpressionForm Expression → ExpressionForm α
  | .variable name => .variable name
  | .constant name => .constant name
  | .bareName name => .bareName name
  | .string value => .string value
  | .int value => .int value
  | .float value => .float value
  | .array items => .array (foldItems items)
  | .property object name nullsafe => .property object.fold name nullsafe
  | .methodCall object name arguments nullsafe =>
      .methodCall object.fold name (foldArguments arguments) nullsafe
  | .staticCall owner name arguments => .staticCall owner.fold name (foldArguments arguments)
  | .classConstant owner name => .classConstant owner.fold name
  | .call callee arguments => .call callee.fold (foldArguments arguments)
  | .entry collection index => .entry collection.fold (foldOption index)
  | .binary operator left right => .binary operator left.fold right.fold
  | .not operand => .not operand.fold
  | .negate operand => .negate operand.fold
  | .ternary condition ifTrue ifFalse =>
      .ternary condition.fold (foldOption ifTrue) ifFalse.fold
  | .assign target value => .assign target.fold value.fold
  | .arrowFunction parameters body => .arrowFunction parameters body.fold
  | .markup element => .markup (foldElement element)

/-- Work through a part that may be absent. -/
def foldOption : Option Expression → Option α
  | none => none
  | some expression => some expression.fold

/-- Work through the items of an array literal. -/
def foldItems : List (ArrayItem Expression) → List (ArrayItem α)
  | [] => []
  | ⟨key, value, unpack, span⟩ :: items =>
      ⟨foldOption key, value.fold, unpack, span⟩ :: foldItems items

/-- Work through the arguments of a call. -/
def foldArguments : List (Argument Expression) → List (Argument α)
  | [] => []
  | ⟨value, unpack, span⟩ :: arguments => ⟨value.fold, unpack, span⟩ :: foldArguments arguments

/-- Work through the expressions of an element. -/
def foldElement : Element Expression → Element α
  | ⟨name, attributes, children, closingName, span⟩ =>
      ⟨name, foldAttributes attributes, foldChildren children, closingName, span⟩

/-- Work through the expressions of a tag header. -/
def foldAttributes : List (AttributeItem Expression) → List (AttributeItem α)
  | [] => []
  | .named ⟨name, value, span⟩ :: items => .named ⟨name, value.fold, span⟩ :: foldAttributes items
  | .spread ⟨expression, span⟩ :: items => .spread ⟨expression.fold, span⟩ :: foldAttributes items

/-- Work through the expressions of content. -/
def foldChildren : List (Child Expression) → List (Child α)
  | [] => []
  | .element element :: children => .element (foldElement element) :: foldChildren children
  | .text text :: children => .text text :: foldChildren children
  | .hole ⟨expression, span⟩ :: children =>
      .hole ⟨expression.fold, span⟩ :: foldChildren children
  | .comment comment :: children => .comment comment :: foldChildren children

end

/-- Working through an option. -/
theorem foldOption_eq (part : Option Expression) :
    foldOption layer part = part.map (fold layer) := by
  cases part <;> rfl

/-- Working through the items of an array literal. -/
theorem foldItems_eq (items : List (ArrayItem Expression)) :
    foldItems layer items = items.map (·.map (fold layer)) := by
  induction items with
  | nil => rfl
  | cons item items ih => simp [foldItems, foldOption_eq, ArrayItem.map, ih]

/-- Working through the arguments of a call. -/
theorem foldArguments_eq (arguments : List (Argument Expression)) :
    foldArguments layer arguments = arguments.map (·.map (fold layer)) := by
  induction arguments with
  | nil => rfl
  | cons argument arguments ih => simp [foldArguments, Argument.map, ih]

/-- Working through the expressions of a tag header. -/
theorem foldAttributes_eq (items : List (AttributeItem Expression)) :
    foldAttributes layer items = items.map (·.map (fold layer)) := by
  induction items with
  | nil => rfl
  | cons item items ih => cases item <;> simp [foldAttributes, AttributeItem.map, ih]

mutual

/-- Working through the expressions of an element. -/
theorem foldElement_eq : (element : Element Expression) →
    foldElement layer element = element.map (fold layer)
  | ⟨name, attributes, children, closingName, span⟩ => by
      simp [foldElement, Element.map, foldAttributes_eq, foldChildren_eq children]

/-- Working through the expressions of content. -/
theorem foldChildren_eq : (children : List (Child Expression)) →
    foldChildren layer children = Child.mapAll (fold layer) children
  | [] => rfl
  | .element element :: children => by
      simp [foldChildren, Child.mapAll, Child.map, foldElement_eq element,
        foldChildren_eq children]
  | .text text :: children => by
      simp [foldChildren, Child.mapAll, Child.map, foldChildren_eq children]
  | .hole hole :: children => by
      simp [foldChildren, Child.mapAll, Child.map, foldChildren_eq children]
  | .comment comment :: children => by
      simp [foldChildren, Child.mapAll, Child.map, foldChildren_eq children]

end

/-- An expression is worked through by working through its parts and then its form. -/
theorem fold_mk (form : ExpressionForm Expression) (span : Span) :
    fold layer ⟨form, span⟩ = layer (form.map (fold layer)) span := by
  cases form <;>
    simp [fold, foldForm, ExpressionForm.map, foldOption_eq, foldItems_eq, foldArguments_eq,
      foldElement_eq]

end Expression
end EmbeddedMarkup
