import EmbeddedMarkup.Proofs.Markup.Spelling
import EmbeddedMarkup.Proofs.Reading.Accesses
import EmbeddedMarkup.Proofs.Reading.Precedence
import EmbeddedMarkup.Proofs.Tree.Names

/-!
# Printing expressions

An expression is printed with every operand in parentheses, and with everything that is accessed or
called in parentheses too, unless it is the name of a function or of a class.  Entries and arguments
are written with commas between them, strings in single quotes, and the expressions in markup in
braces.  Numbers are written in any way in which they are read.

What is printed for a form is read as the form, with resolved names, wherever its parts are.
-/

namespace EmbeddedMarkup

/-- How numbers are written: in any way, but so that they are read again. -/
structure NumberSpelling where
  text : Lexeme → Span → List Char
  spells : ∀ lexeme span, lexeme.isNumber = true → (∃ word, Spells word lexeme) →
    Spells (text lexeme span) lexeme

open Classical in
/-- Every number that can be read can be written. -/
theorem nonempty_numberSpelling : Nonempty NumberSpelling := by
  refine ⟨⟨fun lexeme _ => if spelled : ∃ word, Spells word lexeme then spelled.choose else [], ?_⟩⟩
  intro lexeme _ _ spelled
  rw [dif_pos spelled]
  exact spelled.choose_spec

/-- A printed expression. -/
structure Printed where
  text : List Char
  isName : Bool

namespace Printed

/-- An operand is put in parentheses. -/
def operand (printed : Printed) : List Char :=
  spaced [Symbol.leftParen.text, printed.text, Symbol.rightParen.text]

/-- What is called is put in parentheses, unless it is a name. -/
def callee (printed : Printed) : List Char :=
  if printed.isName then printed.text else printed.operand

/-- An expression in markup is put in braces. -/
def braced (printed : Printed) : List Char :=
  '\x7b' :: (printed.text ++ ['\x7d'])

end Printed

/-- How an item of an array is written. -/
def ArrayItem.printed (item : ArrayItem Printed) : List Char :=
  match item.key with
  | some key => spaced [key.text, Symbol.doubleArrow.text, item.value.text]
  | none =>
      if item.unpack then spaced [Symbol.ellipsis.text, item.value.text] else item.value.text

/-- How an argument of a call is written. -/
def Argument.printed (argument : Argument Printed) : List Char :=
  if argument.unpack then spaced [Symbol.ellipsis.text, argument.value.text]
  else argument.value.text

/-- How an entry of a header is written. -/
def AttributeItem.printed : AttributeItem Printed → List Char
  | .named item => ' ' :: (item.name.toList ++ '=' :: item.value.braced)
  | .spread item => ' ' :: '\x7b' :: ("...".toList ++ (item.expression.text ++ ['\x7d']))

/-- How the end of a header is written. -/
def HeaderEnd.printed : HeaderEnd → List Char
  | .content => ['>']
  | .selfClosing => "/>".toList

/-- How the rest of a header is written, behind the name of its tag. -/
def printedHeader (items : List (AttributeItem Printed)) (ending : HeaderEnd) : List Char :=
  items.flatMap AttributeItem.printed ++ ending.printed

/-- How a closing tag is written. -/
def printedClosing (name : String) : List Char :=
  ['<', '/'] ++ (name.toList ++ ['>'])

mutual

/-- How an element is written. -/
def Element.printed : Element Printed → List Char
  | ⟨name, items, _, none, _⟩ => '<' :: (name.toList ++ printedHeader items .selfClosing)
  | ⟨name, items, children, some closing, _⟩ =>
      '<' :: (name.toList ++ (printedHeader items .content ++
        (Child.printedOfAll children ++ printedClosing closing)))

/-- How a child is written; texts and comments are written as they stand. -/
def Child.printed : Child Printed → List Char
  | .element element => element.printed
  | .text text => text.value.toList
  | .hole hole => hole.expression.braced
  | .comment comment => '\x7b' :: (comment.text.toList ++ ['\x7d'])

/-- How children are written. -/
def Child.printedOfAll : List (Child Printed) → List Char
  | [] => []
  | child :: children => child.printed ++ Child.printedOfAll children

end

theorem Child.printedOfAll_eq (children : List (Child Printed)) :
    Child.printedOfAll children = children.flatMap Child.printed := by
  induction children with
  | nil => rfl
  | cons child children ih => rw [Child.printedOfAll, List.flatMap_cons, ih]

/-- How a form is written. -/
def ExpressionForm.printed (spelling : NumberSpelling) (span : Span) :
    ExpressionForm Printed → List Char
  | .variable name => '$' :: name.toList
  | .constant name => name.toList
  | .bareName name => name.toList
  | .string value => singleQuoted value.toList
  | .int value => spelling.text (.int value.toNat) span
  | .float value => spelling.text (.float value) span
  | .array items =>
      spaced [Symbol.leftBracket.text, listed .rightBracket (items.map ArrayItem.printed)]
  | .property object name nullsafe =>
      spaced [object.operand, (Symbol.memberArrow nullsafe).text, memberText name none]
  | .methodCall object name arguments nullsafe =>
      spaced [object.operand, (Symbol.memberArrow nullsafe).text,
        memberText name (some (arguments.map Argument.printed))]
  | .staticCall owner name arguments =>
      spaced [owner.callee, Symbol.doubleColon.text,
        memberText name (some (arguments.map Argument.printed))]
  | .classConstant owner name =>
      spaced [owner.callee, Symbol.doubleColon.text, memberText name none]
  | .call callee arguments =>
      spaced [callee.callee, Symbol.leftParen.text,
        listed .rightParen (arguments.map Argument.printed)]
  | .entry collection none =>
      spaced [collection.operand, Symbol.leftBracket.text, Symbol.rightBracket.text]
  | .entry collection (some index) =>
      spaced [collection.operand, Symbol.leftBracket.text,
        spaced [index.text, Symbol.rightBracket.text]]
  | .binary operator left right =>
      spaced [left.operand, operator.spelling.toList, right.operand]
  | .not operand => spaced [Symbol.not.text, operand.operand]
  | .negate operand => spaced [Symbol.minus.text, operand.operand]
  | .ternary condition (some ifTrue) ifFalse =>
      spaced [condition.operand, Symbol.question.text, ifTrue.operand, Symbol.colon.text,
        ifFalse.operand]
  | .ternary condition none ifFalse =>
      spaced [condition.operand, Symbol.question.text, Symbol.colon.text, ifFalse.operand]
  | .assign target value => spaced [target.operand, Symbol.assign.text, value.operand]
  | .arrowFunction parameters body =>
      spaced ["fn".toList, Symbol.leftParen.text,
        listed .rightParen (parameters.map Parameter.printed), Symbol.doubleArrow.text,
        body.operand]
  | .markup element => element.printed

namespace Expression

/-- Print an expression from its parts up, and remember whether it is a name. -/
def printed (spelling : NumberSpelling) (expression : Expression) : Printed :=
  expression.fold fun form span =>
    { text := form.printed spelling span
      isName := match form with
        | .bareName _ => true
        | _ => false }

/-- The text that is printed for an expression. -/
def print (spelling : NumberSpelling) (expression : Expression) : List Char :=
  (expression.printed spelling).text

variable (spelling : NumberSpelling)

theorem print_mk (form : ExpressionForm Expression) (span : Span) :
    print spelling ⟨form, span⟩ = (form.map (printed spelling)).printed spelling span := by
  rw [print, printed, fold_mk]
  rfl

@[simp] theorem isName_printed (expression : Expression) :
    (expression.printed spelling).isName = expression.isName := by
  obtain ⟨form, span⟩ := expression
  cases form <;> rfl

end Expression

/-- What is printed for the expression leads to it, with resolved names. -/
structure Expression.Prints (spelling : NumberSpelling) (expression : Expression) : Prop where
  proper : expression.isName = false
  leads : Leads 0 0 (expression.print spelling) expression.resolved

/-- A name that is read as a name where the cursor follows it. -/
structure NameAt (name : String) (c : Cursor) : Prop where
  spells : Spells name.toList (.word .identifier name)
  /-- In front of a parenthesis `array` is no name. -/
  plain : sameWord name "array" = true →
    ∃ lexeme behind, NextLexeme c lexeme behind ∧ lexeme ≠ .symbol .leftParen

/-- The expression in front of a cursor is printed so that it is read again, or it is a name. -/
inductive Expression.PrintsBase (spelling : NumberSpelling) (c : Cursor) : Expression → Prop
  | value {base : Expression} : base.Prints spelling → PrintsBase spelling c base
  | name {name : String} {span : Span} :
      NameAt name c → PrintsBase spelling c ⟨.bareName name, span⟩

variable {spelling : NumberSpelling} {c behind : Cursor} {span : Span}
  {left right base : Expression} {form : ExpressionForm Expression}

namespace Expression

/-- What is an operand when it is printed. -/
theorem prints_of_isOperand
    (proper : isName ⟨form, span⟩ = false)
    (isOperand : IsOperand (print spelling ⟨form, span⟩) (resolved ⟨form, span⟩)) :
    Prints spelling ⟨form, span⟩ :=
  ⟨proper, isOperand.leads.mono (Nat.zero_le _)⟩

/-- In parentheses, what is printed is an operand. -/
theorem Prints.operand (prints : left.Prints spelling) :
    IsOperand (left.printed spelling).operand left.resolved :=
  prints.leads.parenthesized ((isName_resolved left).trans prints.proper)

/-- In parentheses, what is printed leads to an operand at every power. -/
theorem Prints.leads_operand
    {power release : Nat}
    (prints : left.Prints spelling)
    (fits : release ≤ signPower) :
    Leads power release (left.printed spelling).operand left.resolved :=
  prints.operand.leads.mono fits

/-! ## Operators -/

theorem Prints.binary
    {operator : BinaryOperator}
    (prints : left.Prints spelling)
    (prints' : right.Prints spelling) :
    Prints spelling ⟨.binary operator left right, span⟩ := by
  refine ⟨rfl, ?_⟩
  rw [print_mk, resolved_mk]
  exact (prints.leads_operand (Nat.le_refl _)).binary operator.spells_spelling
    operator.binding?_lexeme (Nat.zero_le _) (Lexeme.left_lt_signPower operator.binding?_lexeme)
    (prints'.leads_operand (Nat.zero_le _)) (Nat.zero_le _)

theorem Prints.assign
    (prints : left.Prints spelling)
    (assignable : left.isAssignable = true)
    (prints' : right.Prints spelling) :
    Prints spelling ⟨.assign left right, span⟩ := by
  refine ⟨rfl, ?_⟩
  rw [print_mk, resolved_mk]
  exact (prints.leads_operand (Nat.le_refl _)).assign
    ((isAssignable_resolved left).trans assignable) (spells_symbol .assign) rfl (Nat.zero_le _)
    (by decide) (prints'.leads_operand (Nat.zero_le _)) (Nat.zero_le _)

theorem Prints.ternary
    {ifTrue : Option Expression}
    (prints : left.Prints spelling)
    (alternative : ∀ part, ifTrue = some part → part.Prints spelling)
    (prints' : right.Prints spelling) :
    Prints spelling ⟨.ternary left ifTrue right, span⟩ := by
  refine ⟨by cases ifTrue <;> rfl, ?_⟩
  rw [print_mk, resolved_mk]
  cases ifTrue with
  | none =>
      exact (prints.leads_operand (Nat.le_refl _)).shortTernary (spells_symbol .question) rfl
        (Nat.zero_le _) (by decide) (prints'.leads_operand (Nat.zero_le _)) (Nat.zero_le _)
  | some part =>
      exact (prints.leads_operand (Nat.le_refl _)).ternary (spells_symbol .question) rfl
        (Nat.zero_le _) (by decide) ((alternative part rfl).leads_operand (Nat.zero_le _))
        (prints'.leads_operand (Nat.zero_le _)) (Nat.zero_le _)

theorem Prints.signed
    {kind : Symbol}
    {form : Expression → ExpressionForm Expression}
    (prints : left.Prints spelling)
    (sign : IsSign kind form) :
    Prints spelling ⟨form left, span⟩ := by
  refine prints_of_isOperand (by cases sign <;> rfl) ?_
  rw [print_mk, resolved_mk]
  cases sign with
  | not => exact (prints.leads_operand (Nat.le_refl _)).signed .not
  | negate => exact (prints.leads_operand (Nat.le_refl _)).signed .negate

/-! ## Literals and names -/

/-- A name that is left alone is a constant. -/
theorem prints_constant
    {name : String}
    (spells : Spells name.toList (.word .identifier name)) :
    Prints spelling ⟨.constant name, span⟩ := by
  refine prints_of_isOperand rfl ?_
  rw [print_mk, resolved_mk]
  exact spells.isOperand_name

theorem prints_string (value : String) : Prints spelling ⟨.string value, span⟩ := by
  refine prints_of_isOperand rfl ?_
  rw [print_mk, resolved_mk]
  have spells := spells_singleQuoted value.toList
  rw [String.ofList_toList] at spells
  exact spells.isOperand rfl

/-- A lexeme that is an expression alone is printed so that it is read again. -/
theorem prints_leaf
    {lexeme : Lexeme}
    (next : NextLexeme c lexeme behind)
    (leaf : lexeme.leaf? = some form) :
    Prints spelling ⟨form, span⟩ := by
  obtain ⟨start, length, -, read⟩ := next.read
  unfold Lexeme.leaf? at leaf
  split at leaf
  · rename_i name
    cases leaf
    refine prints_of_isOperand rfl ?_
    rw [print_mk, resolved_mk]
    have spells := spells_variable (isIdentifier_of_read read)
    rw [String.ofList_toList] at spells
    exact spells.isOperand rfl
  · rename_i value
    cases leaf
    refine prints_of_isOperand rfl ?_
    rw [print_mk, resolved_mk]
    exact (spelling.spells (.int value) span rfl (exists_spells_of_read read rfl)).isOperand rfl
  · rename_i value
    cases leaf
    refine prints_of_isOperand rfl ?_
    rw [print_mk, resolved_mk]
    exact (spelling.spells (.float value) span rfl (exists_spells_of_read read rfl)).isOperand rfl
  · rename_i value
    cases leaf
    exact prints_string value
  · cases leaf

theorem prints_array
    {items : List (ArrayItem Expression)}
    (entries : ∀ item ∈ items,
      IsEntry true (item.map (printed spelling)).printed (item.map resolved)) :
    Prints spelling ⟨.array items, span⟩ := by
  refine prints_of_isOperand rfl ?_
  rw [print_mk, resolved_mk]
  refine isOperand_array ?_
  rw [List.map_map, List.forall₂_map_left_iff, List.forall₂_map_right_iff]
  exact List.forall₂_same.mpr entries

theorem Prints.arrowFunction
    {parameters : List Parameter}
    (prints : left.Prints spelling)
    (names : ∀ parameter ∈ parameters, IsIdentifier parameter.name.toList) :
    Prints spelling ⟨.arrowFunction parameters left, span⟩ := by
  refine ⟨rfl, ?_⟩
  rw [print_mk, resolved_mk]
  exact (prints.leads_operand (Nat.zero_le _)).arrowFunction names

theorem prints_markup
    {element : Element Expression}
    (isElement : IsElement (element.map (printed spelling)).printed (element.map resolved)) :
    Prints spelling ⟨.markup element, span⟩ := by
  refine prints_of_isOperand rfl ?_
  rw [print_mk, resolved_mk]
  exact isOperand_markup isElement

/-! ## Entries -/

/-- How the arguments of a member are written, if it is called. -/
def printedArguments
    (spelling : NumberSpelling)
    (arguments : Option (List (Argument Expression))) :
    Option (List (List Char)) :=
  arguments.map fun list => (list.map (Argument.map (printed spelling))).map Argument.printed

/-- The arguments of a member with resolved names, if it is called. -/
def resolvedArguments (arguments : Option (List (Argument Expression))) :
    Option (List (Argument Expression)) :=
  arguments.map (List.map (Argument.map resolved))

theorem Prints.isEntry
    {keyed unpack : Bool}
    (prints : left.Prints spelling) :
    IsEntry keyed (ArrayItem.map (printed spelling) ⟨none, left, unpack, span⟩).printed
      (ArrayItem.map resolved ⟨none, left, unpack, span⟩) := by
  cases unpack with
  | false => exact prints.leads.isEntry
  | true => exact prints.leads.isEntry_unpack

theorem forall₂_isArgument
    {arguments : List (Argument Expression)}
    (isArguments : ∀ argument ∈ arguments,
      IsArgument (argument.map (printed spelling)).printed (argument.map resolved)) :
    List.Forall₂ IsArgument
      ((arguments.map (Argument.map (printed spelling))).map Argument.printed)
      (arguments.map (Argument.map resolved)) := by
  rw [List.map_map, List.forall₂_map_left_iff, List.forall₂_map_right_iff]
  exact List.forall₂_same.mpr isArguments

/-! ## Accesses -/

/-- A value is accessed in parentheses, where a name becomes a constant. -/
theorem PrintsBase.leads (prints : PrintsBase spelling c base) :
    Leads 0 0 (base.print spelling) base.resolved.nameAsConstant := by
  cases prints with
  | value prints =>
      rw [nameAsConstant_of_isName_eq_false ((isName_resolved base).trans prints.proper)]
      exact prints.leads
  | @name name span at_ => exact (@prints_constant spelling span name at_.spells).leads

/-- What is called stands in front of its arguments. -/
theorem PrintsBase.isPrimary
    (prints : PrintsBase spelling c base)
    (next : NextLexeme c (.symbol .leftParen) behind) :
    ∃ admits : Lexeme → Prop, admits (.symbol .leftParen) ∧
      IsPrimary admits (base.printed spelling).callee base.resolved := by
  cases prints with
  | value prints =>
      have plain : (base.printed spelling).isName = false :=
        (isName_printed spelling base).trans prints.proper
      rw [Printed.callee, if_neg (Bool.eq_false_iff.mp plain)]
      exact ⟨_, trivial, prints.leads.isPrimary⟩
  | @name name span at_ =>
      refine ⟨_, ?_, @Spells.isPrimary_name name span at_.spells⟩
      intro array
      obtain ⟨lexeme, after, next', other⟩ := at_.plain array
      obtain ⟨rfl, -⟩ := next.unique next'
      exact absurd rfl other

/-- Where no access follows, a name becomes a constant. -/
theorem PrintsBase.alone (prints : PrintsBase spelling c base) :
    base.nameAsConstant.Prints spelling := by
  cases prints with
  | value prints =>
      rw [nameAsConstant_of_isName_eq_false prints.proper]
      exact prints
  | name at_ => exact prints_constant at_.spells

theorem PrintsBase.member
    {nullsafe : Bool}
    {name : String}
    {arguments : Option (List (Argument Expression))}
    (prints : PrintsBase spelling c base)
    (isMember : IsMember (memberText name (printedArguments spelling arguments)) name
      (resolvedArguments arguments)) :
    Prints spelling ⟨memberForm base nullsafe (name, arguments), span⟩ := by
  have isAccess := @IsMember.isAccess _ _ base.resolved.nameAsConstant _ nullsafe isMember
  refine prints_of_isOperand (by cases arguments <;> rfl) ?_
  rw [print_mk, resolved_mk]
  cases arguments <;> exact prints.leads.isPrimary.access trivial isAccess rfl

theorem PrintsBase.staticMember
    {name : String}
    {arguments : Option (List (Argument Expression))}
    (prints : PrintsBase spelling c base)
    (named : base.isName = true)
    (isMember : IsMember (memberText name (printedArguments spelling arguments)) name
      (resolvedArguments arguments)) :
    Prints spelling ⟨staticMemberForm base (name, arguments), span⟩ := by
  cases prints with
  | value prints =>
      rw [prints.proper] at named
      cases named
  | @name owner span' at_ =>
      have primary := @Spells.isPrimary_name owner span' at_.spells
      have isAccess := @IsMember.isAccess_static _ _ ⟨.bareName owner, span'⟩ _ isMember rfl
      refine prints_of_isOperand (by cases arguments <;> rfl) ?_
      rw [print_mk, resolved_mk]
      cases arguments <;> exact primary.access (fun _ => by simp) isAccess rfl

theorem PrintsBase.call
    {arguments : List (Argument Expression)}
    (prints : PrintsBase spelling c base)
    (next : NextLexeme c (.symbol .leftParen) behind)
    (callable : base.isCallable = true)
    (isArguments : ∀ argument ∈ arguments,
      IsArgument (argument.map (printed spelling)).printed (argument.map resolved)) :
    Prints spelling ⟨.call base arguments, span⟩ := by
  obtain ⟨admits, admitted, primary⟩ := prints.isPrimary next
  have isAccess := isAccess_call (forall₂_isArgument isArguments)
    ((isCallable_resolved base).trans callable)
  refine prints_of_isOperand rfl ?_
  rw [print_mk, resolved_mk]
  exact primary.access admitted isAccess rfl

theorem PrintsBase.entry
    {index : Option Expression}
    (prints : PrintsBase spelling c base)
    (inside : ∀ part, index = some part → part.Prints spelling) :
    Prints spelling ⟨.entry base index, span⟩ := by
  refine prints_of_isOperand rfl ?_
  rw [print_mk, resolved_mk]
  cases index with
  | none => exact prints.leads.isPrimary.access trivial isAccess_newEntry rfl
  | some part =>
      exact prints.leads.isPrimary.access trivial (inside part rfl).leads.isAccess_entry rfl

end Expression

end EmbeddedMarkup
