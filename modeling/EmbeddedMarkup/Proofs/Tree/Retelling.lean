import EmbeddedMarkup.Proofs.Text.Rendering
import EmbeddedMarkup.Proofs.Tree.Respan
import Mathlib.Data.List.Forall2

/-!
# Trees that are read again

What two readings of one text in two renderings have in common is a tree with other strings and
other spans.  Names, literal texts, numbers and flags are kept; the values of string literals and
the texts of comments hold line ends as they are written.

Elements are compared for any two types of host expressions, given what it means for two of those
that the second follows the first.
-/

namespace EmbeddedMarkup

section Layers

variable {ε : Type} (text : String → String)

mutual

/-- An element with the texts of the comments in its markup changed. -/
def Element.retexted : Element ε → Element ε
  | ⟨name, items, children, closingName, span⟩ =>
      ⟨name, items, Child.retextedAll children, closingName, span⟩

/-- A child with the texts of the comments in its markup changed. -/
def Child.retexted : Child ε → Child ε
  | .element element => .element element.retexted
  | .comment comment => .comment { comment with text := text comment.text }
  | child => child

/-- Children with the texts of the comments in their markup changed. -/
def Child.retextedAll : List (Child ε) → List (Child ε)
  | [] => []
  | child :: children => child.retexted :: Child.retextedAll children

end

/-- A form with the value of a string and the texts of comments changed. -/
def ExpressionForm.retexted : ExpressionForm ε → ExpressionForm ε
  | .string value => .string (text value)
  | .markup element => .markup (element.retexted text)
  | form => form

theorem Child.retextedAll_eq (children : List (Child ε)) :
    Child.retextedAll text children = children.map (Child.retexted text) := by
  induction children with
  | nil => rfl
  | cons child children ih => rw [Child.retextedAll, List.map_cons, ih]

end Layers

variable (text : String → String) (f : Span → Span)

/-- An expression with its strings and comments changed by `text` and its spans by `f`. -/
def Expression.retell (expression : Expression) : Expression :=
  expression.fold fun form span => ⟨(form.retexted text).respanned f, f span⟩

/-- An item with all its strings, comments and spans changed. -/
def ArrayItem.retell (item : ArrayItem Expression) : ArrayItem Expression :=
  (item.map (Expression.retell text f)).respanned f

/-- An argument with all its strings, comments and spans changed. -/
def Argument.retell (argument : Argument Expression) : Argument Expression :=
  (argument.map (Expression.retell text f)).respanned f

/-- An entry of a header with all its strings, comments and spans changed. -/
def AttributeItem.retell (item : AttributeItem Expression) : AttributeItem Expression :=
  (item.map (Expression.retell text f)).respanned f

/-- An element with all its strings, comments and spans changed. -/
def Element.retell (element : Element Expression) : Element Expression :=
  ((element.map (Expression.retell text f)).retexted text).respanned f

/-- A child with all its strings, comments and spans changed. -/
def Child.retell (child : Child Expression) : Child Expression :=
  ((child.map (Expression.retell text f)).retexted text).respanned f

/-- A form with all its strings, comments and spans changed. -/
def ExpressionForm.retell (form : ExpressionForm Expression) : ExpressionForm Expression :=
  ((form.map (Expression.retell text f)).retexted text).respanned f

theorem Expression.retell_mk (form : ExpressionForm Expression) (span : Span) :
    Expression.retell text f ⟨form, span⟩ = ⟨form.retell text f, f span⟩ := by
  rw [retell, fold_mk]
  rfl

theorem Element.retell_mk
    (name : String)
    (items : List (AttributeItem Expression))
    (children : List (Child Expression))
    (closingName : Option String)
    (span : Span) :
    Element.retell text f ⟨name, items, children, closingName, span⟩ =
      ⟨name, items.map (·.retell text f), children.map (·.retell text f), closingName, f span⟩ := by
  simp only [retell, Element.map, retexted, respanned, Child.mapAll_eq, Child.retextedAll_eq,
    Child.respannedAll_eq, List.map_map]
  rfl

theorem Child.retell_element (element : Element Expression) :
    (Child.element element).retell text f = .element (element.retell text f) := by
  simp [retell, Child.map, retexted, respanned, Element.retell]

theorem Child.retell_text (literal : LiteralText) :
    (Child.text literal).retell text f = .text (literal.respan f) := by
  simp [retell, Child.map, retexted, respanned]

theorem Child.retell_hole (expression : Expression) (span : Span) :
    (Child.hole ⟨expression, span⟩).retell text f = .hole ⟨expression.retell text f, f span⟩ := by
  simp [retell, Child.map, retexted, respanned]

theorem Child.retell_comment (comment : Comment) :
    (Child.comment comment).retell text f = .comment ⟨text comment.text, f comment.span⟩ := by
  simp [retell, Child.map, retexted, respanned, Comment.respan]

namespace ExpressionForm

theorem retell_array (items : List (ArrayItem Expression)) :
    (array items).retell text f = .array (items.map (·.retell text f)) := by
  simp [retell, map, retexted, respanned, ArrayItem.retell]

theorem retell_methodCall
    (object : Expression)
    (name : String)
    (arguments : List (Argument Expression))
    (nullsafe : Bool) :
    (methodCall object name arguments nullsafe).retell text f =
      .methodCall (object.retell text f) name (arguments.map (·.retell text f)) nullsafe := by
  simp [retell, map, retexted, respanned, Argument.retell]

theorem retell_staticCall
    (owner : Expression)
    (name : String)
    (arguments : List (Argument Expression)) :
    (staticCall owner name arguments).retell text f =
      .staticCall (owner.retell text f) name (arguments.map (·.retell text f)) := by
  simp [retell, map, retexted, respanned, Argument.retell]

theorem retell_call (callee : Expression) (arguments : List (Argument Expression)) :
    (call callee arguments).retell text f =
      .call (callee.retell text f) (arguments.map (·.retell text f)) := by
  simp [retell, map, retexted, respanned, Argument.retell]

theorem retell_markup (element : Element Expression) :
    (markup element).retell text f = .markup (element.retell text f) := by
  simp [retell, map, retexted, respanned, Element.retell]

end ExpressionForm

/-! ## Elements that follow each other -/

section Follows

variable {ε ε' : Type} (r : Rendering) (R : ε → ε' → Prop)

/-- The second entry of a header follows the first one. -/
inductive AttributeItem.Follows : AttributeItem ε → AttributeItem ε' → Prop
  | named {name : String} {value : ε} {value' : ε'} {span : Span} :
      R value value' →
      Follows (.named ⟨name, value, span⟩) (.named ⟨name, value', r.span span⟩)
  | spread {expression : ε} {expression' : ε'} {span : Span} :
      R expression expression' →
      Follows (.spread ⟨expression, span⟩) (.spread ⟨expression', r.span span⟩)

mutual

/-- The second element follows the first one: it is the same up to its expressions, its spans and
the line ends in its comments. -/
inductive Element.Follows : Element ε → Element ε' → Prop
  | mk
      {name : String}
      {items : List (AttributeItem ε)}
      {items' : List (AttributeItem ε')}
      {children : List (Child ε)}
      {children' : List (Child ε')}
      {closingName : Option String}
      {span : Span} :
      List.Forall₂ (AttributeItem.Follows r R) items items' →
      List.Forall₂ Child.Follows children children' →
      Element.Follows ⟨name, items, children, closingName, span⟩
        ⟨name, items', children', closingName, r.span span⟩

/-- The second child follows the first one. -/
inductive Child.Follows : Child ε → Child ε' → Prop
  | element {element : Element ε} {element' : Element ε'} :
      Element.Follows element element' →
      Child.Follows (.element element) (.element element')
  | text {value : String} {span : Span} :
      Child.Follows (.text ⟨value, span⟩) (.text ⟨value, r.span span⟩)
  | hole {expression : ε} {expression' : ε'} {span : Span} :
      R expression expression' →
      Child.Follows (.hole ⟨expression, span⟩) (.hole ⟨expression', r.span span⟩)
  | comment {text text' : String} {span : Span} :
      r.ends.plain text' = r.ends.plain text →
      Child.Follows (.comment ⟨text, span⟩) (.comment ⟨text', r.span span⟩)

end

end Follows

/-! ## Expressions that follow each other -/

section Retold

variable (r : Rendering)

/-- The second expression is read where the first one is read, and says the same. -/
def Expression.Follows (expression expression' : Expression) : Prop :=
  expression'.retell r.ends.plain id = expression.retell r.ends.plain r.span

/-- The second form is read where the first one is read, and says the same. -/
def ExpressionForm.Follows (form form' : ExpressionForm Expression) : Prop :=
  form'.retell r.ends.plain id = form.retell r.ends.plain r.span

/-- The second item is read where the first one is read, and says the same. -/
def ArrayItem.Follows (item item' : ArrayItem Expression) : Prop :=
  item'.retell r.ends.plain id = item.retell r.ends.plain r.span

/-- The second argument is read where the first one is read, and says the same. -/
def Argument.Follows (argument argument' : Argument Expression) : Prop :=
  argument'.retell r.ends.plain id = argument.retell r.ends.plain r.span

/-- The second parameter is read where the first one is read. -/
def Parameter.Follows (parameter parameter' : Parameter) : Prop :=
  parameter'.respan id = parameter.respan r.span

end Retold

section Lists

variable {α β γ : Type} {f : α → γ} {g : β → γ}

theorem map_eq_map_of_forall₂
    {first : List α}
    {second : List β}
    (follow : List.Forall₂ (fun a b => g b = f a) first second) :
    second.map g = first.map f := by
  induction follow with
  | nil => rfl
  | cons same _ ih => exact congrArg₂ List.cons same ih

theorem map_eq_map_of_rel
    {first : Option α}
    {second : Option β}
    (follow : Option.Rel (fun a b => g b = f a) first second) :
    second.map g = first.map f := by
  cases follow with
  | none => rfl
  | some same => exact congrArg some same

end Lists

section Conversion

variable {r : Rendering}

theorem AttributeItem.Follows.retell_eq
    {item item' : AttributeItem Expression}
    (follows : AttributeItem.Follows r (Expression.Follows r) item item') :
    item'.retell r.ends.plain id = item.retell r.ends.plain r.span := by
  cases follows with
  | named same => exact congrArg (AttributeItem.named ⟨_, ·, _⟩) same
  | spread same => exact congrArg (AttributeItem.spread ⟨·, _⟩) same

mutual

/-- Elements that follow each other say the same. -/
theorem Element.retell_eq_of_follows :
    (element : Element Expression) → ∀ {element' : Element Expression},
      Element.Follows r (Expression.Follows r) element element' →
      element'.retell r.ends.plain id = element.retell r.ends.plain r.span
  | ⟨name, items, children, closingName, span⟩, _, .mk follow follow' => by
      rw [Element.retell_mk, Element.retell_mk,
        map_eq_map_of_forall₂ (follow.imp fun _ _ => AttributeItem.Follows.retell_eq),
        Child.map_retell_eq_of_follows children follow', id]

/-- Children that follow each other say the same. -/
theorem Child.map_retell_eq_of_follows :
    (children : List (Child Expression)) → ∀ {children' : List (Child Expression)},
      List.Forall₂ (Child.Follows r (Expression.Follows r)) children children' →
      children'.map (·.retell r.ends.plain id) = children.map (·.retell r.ends.plain r.span)
  | [], _, .nil => rfl
  | .element element :: children, _, .cons (.element follows) follow => by
      rw [List.map_cons, List.map_cons, Child.retell_element, Child.retell_element,
        Element.retell_eq_of_follows element follows,
        Child.map_retell_eq_of_follows children follow]
  | .text literal :: children, _, .cons .text follow => by
      rw [List.map_cons, List.map_cons, Child.retell_text, Child.retell_text,
        Child.map_retell_eq_of_follows children follow]
      rfl
  | .hole hole :: children, _, .cons (.hole same) follow => by
      rw [List.map_cons, List.map_cons, Child.retell_hole, Child.retell_hole,
        Child.map_retell_eq_of_follows children follow]
      rw [Expression.Follows] at same
      rw [same, id]
  | .comment comment :: children, _, .cons (.comment same) follow => by
      rw [List.map_cons, List.map_cons, Child.retell_comment, Child.retell_comment,
        Child.map_retell_eq_of_follows children follow, same, id]

end

/-! ## Forms of parts that follow each other -/

theorem ArrayItem.follows_mk
    {key key' : Option Expression}
    {value value' : Expression}
    {unpack : Bool}
    {span : Span}
    (follow : Option.Rel (Expression.Follows r) key key')
    (same : value.Follows r value') :
    ArrayItem.Follows r ⟨key, value, unpack, span⟩ ⟨key', value', unpack, r.span span⟩ :=
  congrArg₂ (ArrayItem.mk · · unpack (r.span span)) (map_eq_map_of_rel follow) same

namespace ExpressionForm

theorem follows_string {value value' : String} (same : r.ends.plain value' = r.ends.plain value) :
    ExpressionForm.Follows r (.string value) (.string value') :=
  congrArg string same

theorem follows_array
    {items items' : List (ArrayItem Expression)}
    (follow : List.Forall₂ (ArrayItem.Follows r) items items') :
    ExpressionForm.Follows r (.array items) (.array items') := by
  rw [ExpressionForm.Follows, retell_array, retell_array, map_eq_map_of_forall₂ follow]

theorem follows_call
    {callee callee' : Expression}
    {arguments arguments' : List (Argument Expression)}
    (called : callee.Follows r callee')
    (follow : List.Forall₂ (Argument.Follows r) arguments arguments') :
    ExpressionForm.Follows r (.call callee arguments) (.call callee' arguments') := by
  rw [ExpressionForm.Follows, retell_call, retell_call, map_eq_map_of_forall₂ follow, called]

theorem follows_entry
    {collection collection' : Expression}
    {index index' : Option Expression}
    (same : collection.Follows r collection')
    (follow : Option.Rel (Expression.Follows r) index index') :
    ExpressionForm.Follows r (.entry collection index) (.entry collection' index') :=
  congrArg₂ entry same (map_eq_map_of_rel follow)

theorem follows_ternary
    {condition condition' ifFalse ifFalse' : Expression}
    {ifTrue ifTrue' : Option Expression}
    (same : condition.Follows r condition')
    (follow : Option.Rel (Expression.Follows r) ifTrue ifTrue')
    (same' : ifFalse.Follows r ifFalse') :
    ExpressionForm.Follows r (.ternary condition ifTrue ifFalse)
      (.ternary condition' ifTrue' ifFalse') := by
  have parts := congrArg₂ ternary same (map_eq_map_of_rel follow)
  change ternary _ _ _ = ternary _ _ _
  exact congr parts same'

theorem follows_arrowFunction
    {parameters parameters' : List Parameter}
    {body body' : Expression}
    (follow : List.Forall₂ (Parameter.Follows r) parameters parameters')
    (same : body.Follows r body') :
    ExpressionForm.Follows r (.arrowFunction parameters body) (.arrowFunction parameters' body') :=
  congrArg₂ arrowFunction (map_eq_map_of_forall₂ follow) same

theorem follows_markup
    {element element' : Element Expression}
    (follows : Element.Follows r (Expression.Follows r) element element') :
    ExpressionForm.Follows r (.markup element) (.markup element') := by
  rw [ExpressionForm.Follows, retell_markup, retell_markup,
    Element.retell_eq_of_follows element follows]

theorem follows_memberForm
    {object object' : Expression}
    {nullsafe : Bool}
    {name : String}
    {arguments arguments' : Option (List (Argument Expression))}
    (same : object.Follows r object')
    (follow : Option.Rel (List.Forall₂ (Argument.Follows r)) arguments arguments') :
    ExpressionForm.Follows r (memberForm object nullsafe (name, arguments))
      (memberForm object' nullsafe (name, arguments')) := by
  cases follow with
  | none => exact congrArg (property · name nullsafe) same
  | some follow =>
      rw [memberForm, memberForm, ExpressionForm.Follows, retell_methodCall, retell_methodCall,
        map_eq_map_of_forall₂ follow, same]

theorem follows_staticMemberForm
    {owner owner' : Expression}
    {name : String}
    {arguments arguments' : Option (List (Argument Expression))}
    (same : owner.Follows r owner')
    (follow : Option.Rel (List.Forall₂ (Argument.Follows r)) arguments arguments') :
    ExpressionForm.Follows r (staticMemberForm owner (name, arguments))
      (staticMemberForm owner' (name, arguments')) := by
  cases follow with
  | none => exact congrArg (classConstant · name) same
  | some follow =>
      rw [staticMemberForm, staticMemberForm, ExpressionForm.Follows, retell_staticCall,
        retell_staticCall, map_eq_map_of_forall₂ follow, same]

end ExpressionForm

namespace Expression

theorem follows_mk
    {form form' : ExpressionForm Expression}
    {span : Span}
    (same : form.Follows r form') :
    Expression.Follows r ⟨form, span⟩ ⟨form', r.span span⟩ := by
  rw [Expression.Follows, retell_mk, retell_mk, same]
  rfl

section Shape

variable (text : String → String) (f : Span → Span) (expression : Expression)

theorem isAssignable_retell :
    (expression.retell text f).isAssignable = expression.isAssignable := by
  obtain ⟨form, span⟩ := expression
  rw [retell_mk]
  cases form <;> rfl

theorem isCallable_retell : (expression.retell text f).isCallable = expression.isCallable := by
  obtain ⟨form, span⟩ := expression
  rw [retell_mk]
  cases form <;> rfl

theorem isName_retell : (expression.retell text f).isName = expression.isName := by
  obtain ⟨form, span⟩ := expression
  rw [retell_mk]
  cases form <;> rfl

theorem span_retell : (expression.retell text f).span = f expression.span := by
  obtain ⟨form, span⟩ := expression
  rw [retell_mk]

theorem retell_nameAsConstant :
    expression.nameAsConstant.retell text f = (expression.retell text f).nameAsConstant := by
  obtain ⟨form, span⟩ := expression
  rw [retell_mk]
  cases form <;> exact retell_mk text f _ _

end Shape

namespace Follows

variable
  {expression expression' : Expression}
  (follows : Expression.Follows r expression expression')

include follows

theorem isAssignable_eq : expression'.isAssignable = expression.isAssignable := by
  rw [← isAssignable_retell, follows, isAssignable_retell]

theorem isCallable_eq : expression'.isCallable = expression.isCallable := by
  rw [← isCallable_retell, follows, isCallable_retell]

theorem isName_eq : expression'.isName = expression.isName := by
  rw [← isName_retell, follows, isName_retell]

theorem span_eq : expression'.span = r.span expression.span := by
  have same := span_retell r.ends.plain id expression'
  rw [follows, span_retell] at same
  exact same.symm

theorem nameAsConstant : expression.nameAsConstant.Follows r expression'.nameAsConstant := by
  rw [Expression.Follows, retell_nameAsConstant, retell_nameAsConstant, follows]

end Follows
end Expression

end Conversion

end EmbeddedMarkup
