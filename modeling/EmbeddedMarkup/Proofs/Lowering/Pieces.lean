import EmbeddedMarkup.Proofs.Lowering.DataModel

/-!
# Pieces under lowering

The pieces of an expression are its names, literals, operators, accesses and calls, the items of its
array literals with their keys and ellipses, and the names, texts and comments of its markup, in the
order in which they are written.

Each piece leaves a trace when the expression is lowered.  In an array literal that becomes an
element the name becomes the name of the element, keys of attributes become names of attributes,
items without a key become spreads, strings become texts, and empty strings go.  What else stood at
the items of such an array literal is lost: the keys of its own items, and their ellipses.
-/

namespace EmbeddedMarkup

/-- A piece that an expression is made of. -/
inductive Piece where
  | variable (name : String)
  | constant (name : String)
  | bareName (name : String)
  | string (value : String)
  | int (value : Int)
  | float (value : Double)
  /-- An item of an array literal. -/
  | item
  /-- The ellipsis of an item. -/
  | unpack
  /-- The arrow behind the key of an item. -/
  | key
  | property (name : String) (nullsafe : Bool)
  | methodCall (name : String) (nullsafe : Bool)
  | staticCall (name : String)
  | classConstant (name : String)
  | call
  | argument (unpack : Bool)
  | entry
  | binary (operator : BinaryOperator)
  | not
  | negate
  | ternary
  | otherwise
  | assign
  | arrowFunction (parameters : List String)
  | elementName (name : String)
  | attributeName (name : String)
  | spread
  | text (value : String)
  | comment (text : String)

/-! ## Listing -/

section Listing

variable {β γ : Type} (mark : Piece → β)

/-- What an item says besides its value: its ellipsis and its key. -/
def ArrayItem.marks (item : ArrayItem (List β)) : List β :=
  (if item.unpack then [mark .unpack] else []) ++
    match item.key with
    | some key => key ++ [mark .key]
    | none => []

/-- An item whose parts are listed. -/
def ArrayItem.listing (item : ArrayItem (List β)) : List β :=
  mark .item :: (item.marks mark ++ item.value)

/-- An argument whose value is listed. -/
def Argument.listing (argument : Argument (List β)) : List β :=
  mark (.argument argument.unpack) :: argument.value

/-- An entry of a header whose expression is listed. -/
def AttributeItem.listing : AttributeItem (List β) → List β
  | .named item => mark (.attributeName item.name) :: item.value
  | .spread item => mark .spread :: item.expression

mutual

/-- An element whose expressions are listed: first its header, then its content. -/
def Element.listing : Element (List β) → List β
  | ⟨name, items, children, _, _⟩ =>
      mark (.elementName name) ::
        (items.flatMap (AttributeItem.listing mark) ++ Child.listingAll children)

/-- A child whose expressions are listed. -/
def Child.listing : Child (List β) → List β
  | .element element => element.listing
  | .text text => [mark (.text text.value)]
  | .hole hole => hole.expression
  | .comment comment => [mark (.comment comment.text)]

/-- Children whose expressions are listed. -/
def Child.listingAll : List (Child (List β)) → List β
  | [] => []
  | child :: children => child.listing ++ Child.listingAll children

end

/-- A form whose parts are listed, in the order in which it is written. -/
def ExpressionForm.listing : ExpressionForm (List β) → List β
  | .variable name => [mark (.variable name)]
  | .constant name => [mark (.constant name)]
  | .bareName name => [mark (.bareName name)]
  | .string value => [mark (.string value)]
  | .int value => [mark (.int value)]
  | .float value => [mark (.float value)]
  | .array items => items.flatMap (ArrayItem.listing mark)
  | .property object name nullsafe => object ++ [mark (.property name nullsafe)]
  | .methodCall object name arguments nullsafe =>
      object ++ mark (.methodCall name nullsafe) :: arguments.flatMap (Argument.listing mark)
  | .staticCall owner name arguments =>
      owner ++ mark (.staticCall name) :: arguments.flatMap (Argument.listing mark)
  | .classConstant owner name => owner ++ [mark (.classConstant name)]
  | .call callee arguments =>
      callee ++ mark .call :: arguments.flatMap (Argument.listing mark)
  | .entry collection index => collection ++ mark .entry :: index.getD []
  | .binary operator left right => left ++ mark (.binary operator) :: right
  | .not operand => mark .not :: operand
  | .negate operand => mark .negate :: operand
  | .ternary condition ifTrue ifFalse =>
      condition ++ mark .ternary :: (ifTrue.getD [] ++ mark .otherwise :: ifFalse)
  | .assign target value => target ++ mark .assign :: value
  | .arrowFunction parameters body =>
      mark (.arrowFunction (parameters.map Parameter.name)) :: body
  | .markup element => element.listing mark

variable {mark}

theorem Child.listingAll_eq (children : List (Child (List β))) :
    Child.listingAll mark children = children.flatMap (Child.listing mark) := by
  induction children with
  | nil => rfl
  | cons child children ih => rw [Child.listingAll, List.flatMap_cons, ih]

variable {mark' : Piece → γ} {g : β → List γ}

theorem ArrayItem.flatMap_marks
    (same : ∀ piece, g (mark piece) = [mark' piece])
    (item : ArrayItem (List β)) :
    (item.marks mark).flatMap g = (item.map (List.flatMap g)).marks mark' := by
  obtain ⟨_ | key, value, _ | _, span⟩ := item <;> simp [marks, ArrayItem.map, same]

theorem ArrayItem.flatMap_listing
    (same : ∀ piece, g (mark piece) = [mark' piece])
    (item : ArrayItem (List β)) :
    (item.listing mark).flatMap g = (item.map (List.flatMap g)).listing mark' := by
  rw [listing, List.flatMap_cons, List.flatMap_append, same, item.flatMap_marks same]
  rfl

theorem Argument.flatMap_listing
    (same : ∀ piece, g (mark piece) = [mark' piece])
    (argument : Argument (List β)) :
    (argument.listing mark).flatMap g = (argument.map (List.flatMap g)).listing mark' := by
  rw [listing, List.flatMap_cons, same]
  rfl

theorem AttributeItem.flatMap_listing
    (same : ∀ piece, g (mark piece) = [mark' piece])
    (item : AttributeItem (List β)) :
    (item.listing mark).flatMap g = (item.map (List.flatMap g)).listing mark' := by
  cases item <;> simp [listing, same]

mutual

theorem Element.flatMap_listing
    (same : ∀ piece, g (mark piece) = [mark' piece]) : (element : Element (List β)) →
    (element.listing mark).flatMap g = (element.map (List.flatMap g)).listing mark'
  | ⟨name, items, children, closingName, span⟩ => by
      simp [Element.listing, Element.map, same, List.flatMap_assoc, List.flatMap_map,
        AttributeItem.flatMap_listing same, Child.flatMap_listingAll same children]

theorem Child.flatMap_listing
    (same : ∀ piece, g (mark piece) = [mark' piece]) : (child : Child (List β)) →
    (child.listing mark).flatMap g = (child.map (List.flatMap g)).listing mark'
  | .element element => by
      simp [Child.listing, Child.map, Element.flatMap_listing same element]
  | .text _ | .comment _ => by simp [Child.listing, Child.map, same]
  | .hole _ => by simp [Child.listing, Child.map]

theorem Child.flatMap_listingAll
    (same : ∀ piece, g (mark piece) = [mark' piece]) : (children : List (Child (List β))) →
    (Child.listingAll mark children).flatMap g =
      Child.listingAll mark' (Child.mapAll (List.flatMap g) children)
  | [] => rfl
  | child :: children => by
      simp [Child.listingAll, Child.mapAll, Child.flatMap_listing same child,
        Child.flatMap_listingAll same children]

end

/-- Changing the marks in a listing is changing them in its parts. -/
theorem ExpressionForm.flatMap_listing
    (same : ∀ piece, g (mark piece) = [mark' piece])
    (form : ExpressionForm (List β)) :
    (form.listing mark).flatMap g = (form.map (List.flatMap g)).listing mark' := by
  cases form with
  | entry collection index => cases index <;> simp [listing, map, same]
  | ternary condition ifTrue ifFalse => cases ifTrue <;> simp [listing, map, same]
  | markup element => exact element.flatMap_listing same
  | _ =>
      simp [listing, map, same, List.flatMap_assoc, List.flatMap_map,
        ArrayItem.flatMap_listing same, Argument.flatMap_listing same]

variable {Holds : β → Prop}

mutual

theorem Element.forall_mem_listing
    (holds : ∀ piece, Holds (mark piece)) : (element : Element (List β)) →
    ((∀ entry ∈ element.listing mark, Holds entry) ↔
      ∀ part ∈ element.expressions, ∀ entry ∈ part, Holds entry)
  | ⟨name, items, children, closingName, span⟩ => by
      have header (item : AttributeItem (List β)) : (∀ entry ∈ item.listing mark, Holds entry) ↔
          ∀ entry ∈ item.expression, Holds entry := by
        cases item <;> simp [AttributeItem.listing, AttributeItem.expression, holds]
      rw [Element.listing, Element.expressions, List.forall_mem_cons, List.forall_mem_append,
        List.forall_mem_append, List.forall_mem_flatMap, List.forall_mem_map,
        Child.forall_mem_listingAll holds children]
      simp only [header, holds, true_and]

theorem Child.forall_mem_listing
    (holds : ∀ piece, Holds (mark piece)) : (child : Child (List β)) →
    ((∀ entry ∈ child.listing mark, Holds entry) ↔
      ∀ part ∈ child.expressions, ∀ entry ∈ part, Holds entry)
  | .element element => Element.forall_mem_listing holds element
  | .text _ | .comment _ => by simp [Child.listing, Child.expressions, holds]
  | .hole _ => by simp [Child.listing, Child.expressions]

theorem Child.forall_mem_listingAll
    (holds : ∀ piece, Holds (mark piece)) : (children : List (Child (List β))) →
    ((∀ entry ∈ Child.listingAll mark children, Holds entry) ↔
      ∀ part ∈ Child.expressionsOfAll children, ∀ entry ∈ part, Holds entry)
  | [] => by simp [Child.listingAll, Child.expressionsOfAll]
  | child :: children => by
      rw [Child.listingAll, Child.expressionsOfAll, List.forall_mem_append, List.forall_mem_append,
        Child.forall_mem_listing holds child, Child.forall_mem_listingAll holds children]

end

theorem Argument.forall_mem_flatMap_listing
    (holds : ∀ piece, Holds (mark piece))
    (arguments : List (Argument (List β))) :
    (∀ entry ∈ arguments.flatMap (listing mark), Holds entry) ↔
      ∀ part ∈ arguments.map value, ∀ entry ∈ part, Holds entry := by
  rw [List.forall_mem_flatMap, List.forall_mem_map]
  simp only [listing, List.forall_mem_cons, holds, true_and]

/-- What holds of all marks holds of a listing when it holds of its parts. -/
theorem ExpressionForm.forall_mem_listing
    (holds : ∀ piece, Holds (mark piece))
    (form : ExpressionForm (List β)) :
    (∀ entry ∈ form.listing mark, Holds entry) ↔
      ∀ part ∈ form.expressions, ∀ entry ∈ part, Holds entry := by
  have behind {object : List β} {piece : Piece} {arguments : List (Argument (List β))} :
      (∀ entry ∈ object ++ mark piece :: arguments.flatMap (Argument.listing mark), Holds entry) ↔
        ∀ part ∈ object :: arguments.map Argument.value, ∀ entry ∈ part, Holds entry := by
    rw [List.forall_mem_append, List.forall_mem_cons, List.forall_mem_cons,
      Argument.forall_mem_flatMap_listing holds, and_iff_right (holds piece)]
  cases form with
  | markup element => exact element.forall_mem_listing holds
  | array items =>
      have inside (item : ArrayItem (List β)) : (∀ entry ∈ item.listing mark, Holds entry) ↔
          ∀ part ∈ item.parts, ∀ entry ∈ part, Holds entry := by
        obtain ⟨_ | key, value, _ | _, span⟩ := item <;>
          simp [ArrayItem.listing, ArrayItem.marks, ArrayItem.parts, holds, or_imp, forall_and]
      change (∀ entry ∈ items.flatMap (ArrayItem.listing mark), Holds entry) ↔
        ∀ part ∈ items.flatMap ArrayItem.parts, ∀ entry ∈ part, Holds entry
      rw [List.forall_mem_flatMap, List.forall_mem_flatMap]
      simp only [inside]
  | methodCall => exact behind
  | staticCall => exact behind
  | call => exact behind
  | entry collection index =>
      cases index <;> simp [listing, expressions, parts, holds, or_imp, forall_and]
  | ternary condition ifTrue ifFalse =>
      cases ifTrue <;> simp [listing, expressions, parts, holds, or_imp, forall_and]
  | _ => simp [listing, expressions, parts, holds, or_imp, forall_and]

end Listing

/-! ## Pieces -/

/-- The pieces of an expression, in the order in which they are written. -/
def Expression.pieces (expression : Expression) : List Piece :=
  expression.fold fun form _ => form.listing id

/-- The pieces of an item. -/
def ArrayItem.pieces (item : ArrayItem Expression) : List Piece :=
  (item.map Expression.pieces).listing id

/-- The pieces of an entry of a header. -/
def AttributeItem.pieces (item : AttributeItem Expression) : List Piece :=
  (item.map Expression.pieces).listing id

/-- The pieces of an element. -/
def Element.pieces (element : Element Expression) : List Piece :=
  (element.map Expression.pieces).listing id

/-- The pieces of a child. -/
def Child.pieces (child : Child Expression) : List Piece :=
  (child.map Expression.pieces).listing id

theorem Expression.pieces_mk (form : ExpressionForm Expression) (span : Span) :
    pieces ⟨form, span⟩ = (form.map pieces).listing id :=
  fold_mk _ form span

theorem Expression.pieces_array (items : List (ArrayItem Expression)) (span : Span) :
    pieces ⟨.array items, span⟩ = items.flatMap ArrayItem.pieces := by
  rw [pieces_mk, ExpressionForm.map, ExpressionForm.listing, List.flatMap_map]
  rfl

theorem Element.pieces_eq (element : Element Expression) :
    element.pieces = .elementName element.name ::
      (element.attributes.flatMap AttributeItem.pieces ++
        element.children.flatMap Child.pieces) := by
  obtain ⟨name, items, children, closingName, span⟩ := element
  rw [pieces, Element.map, Element.listing, Child.listingAll_eq, Child.mapAll_eq, List.flatMap_map,
    List.flatMap_map]
  rfl

/-! ## Traces -/

/-- What becomes of a piece when an expression is lowered. -/
inductive Trace where
  | kept (piece : Piece)
  /-- The name at the front of an array literal becomes the name of the element. -/
  | elementName (name : String)
  /-- A key becomes the name of an attribute. -/
  | attributeName (name : String)
  /-- An item without a key becomes a spread. -/
  | spread
  /-- A string becomes a text. -/
  | text (value : String)
  /-- An empty string goes. -/
  | emptyText
  /-- An item that becomes a name, an attribute or a child needs no place of its own. -/
  | item
  /-- Behind the name of an attribute there is no arrow. -/
  | key
  /-- A spread needs no ellipsis of an item. -/
  | unpack
  | lost (piece : Piece)

namespace Trace

/-- The piece that leaves the trace. -/
def before : Trace → List Piece
  | kept piece => [piece]
  | elementName name => [.string name]
  | attributeName name => [.string name]
  | spread => [.item]
  | text value => [.string value]
  | emptyText => [.string ""]
  | item => [.item]
  | key => [.key]
  | unpack => [.unpack]
  | lost piece => [piece]

/-- What stands for the piece afterwards. -/
def after : Trace → List Piece
  | kept piece => [piece]
  | elementName name => [.elementName name]
  | attributeName name => [.attributeName name]
  | spread => [.spread]
  | text value => [.text value]
  | emptyText | item | key | unpack | lost _ => []

/-- What is to stand for the piece afterwards: a piece that is not turned into another one stays. -/
def expected : Trace → List Piece
  | lost piece => [piece]
  | trace => trace.after

/-- The piece is gone, and nothing tells that it was there. -/
def isLost : Trace → Bool
  | lost _ => true
  | _ => false

theorem expected_eq_after {trace : Trace} (found : trace.isLost = false) :
    trace.expected = trace.after := by
  cases trace <;> first | rfl | cases found

theorem length_flatMap_after_le (traces : List Trace) :
    (traces.flatMap after).length ≤ (traces.flatMap expected).length := by
  induction traces with
  | nil => exact Nat.le_refl _
  | cons trace traces ih =>
      rw [List.flatMap_cons, List.flatMap_cons, List.length_append, List.length_append]
      have here : trace.after.length ≤ trace.expected.length := by
        cases trace <;> simp [after, expected]
      exact Nat.add_le_add here ih

/-- What stands afterwards is what is to stand when nothing is lost. -/
theorem flatMap_after_eq_iff {traces : List Trace} :
    traces.flatMap after = traces.flatMap expected ↔ ∀ trace ∈ traces, trace.isLost = false := by
  induction traces with
  | nil => exact iff_of_true rfl (List.forall_mem_nil _)
  | cons trace traces ih =>
      rw [List.flatMap_cons, List.flatMap_cons, List.forall_mem_cons]
      by_cases found : trace.isLost = false
      · rw [expected_eq_after found, List.append_cancel_left_eq, ih, and_iff_right found]
      · refine iff_of_false (fun same => ?_) fun ⟨here, _⟩ => found here
        have shorter := length_flatMap_after_le traces
        have equal := congrArg List.length same
        cases trace <;> first | exact found rfl | skip
        simp only [after, expected, List.nil_append, List.cons_append, List.length_cons] at equal
        omega

end Trace

/-- An expression with what becomes of its pieces. -/
structure Account where
  expression : Expression
  /-- What becomes of the pieces where lowering turns to the expression. -/
  traces : List Trace
  /-- What becomes of the pieces where the expression is an array of attributes. -/
  entries : List Trace

namespace Account

/-- What an item of an array literal that becomes an element loses, besides its value. -/
def lostMarks (item : ArrayItem Account) : List Trace :=
  (item.map fun part => part.expression.pieces.map Trace.lost).marks .lost

/-- What becomes of an item of attributes. -/
def entryTraces (item : ArrayItem Account) : List Trace :=
  match item.key with
  | some ⟨⟨.string name, _⟩, _, _⟩ =>
      .item :: ((if item.unpack then [.lost .unpack] else []) ++
        .attributeName name :: .key :: item.value.traces)
  | _ => .spread :: ((if item.unpack then [.unpack] else []) ++ item.value.traces)

/-- What becomes of a value that becomes a child. -/
def childTraces (value : Account) : List Trace :=
  match value.expression.form with
  | .string text => if text.isEmpty then [.emptyText] else [.text text]
  | _ => value.traces

/-- What becomes of the items of an array literal that becomes an element. -/
def elementTraces (name : String) : List (ArrayItem Account) → List Trace
  | [] => []
  | first :: rest =>
      .item :: (lostMarks first ++ .elementName name ::
        match rest with
        | [] => []
        | second :: children =>
            .item :: (lostMarks second ++ (second.value.entries ++
              children.flatMap fun item => .item :: (lostMarks item ++ childTraces item.value))))

/-- What becomes of the parts of a form; the class of a static access is left as it is. -/
def partTraces : ExpressionForm Account → ExpressionForm (List Trace)
  | .staticCall owner name arguments =>
      .staticCall (owner.expression.pieces.map .kept) name (arguments.map (·.map traces))
  | .classConstant owner name => .classConstant (owner.expression.pieces.map .kept) name
  | form => form.map traces

/-- The account of a form whose parts have theirs. -/
def layer (form : ExpressionForm Account) (span : Span) : Account where
  expression := ⟨form.map expression, span⟩
  traces :=
    match form with
    | .array items =>
        match markupShape? (items.map (·.map expression)) with
        | some shape => elementTraces shape.name items
        | none => (partTraces (.array items)).listing .kept
    | form => (partTraces form).listing .kept
  entries :=
    match form with
    | .array items => items.flatMap entryTraces
    | _ => []

end Account

namespace Expression

/-- The account of an expression. -/
def account (expression : Expression) : Account :=
  expression.fold Account.layer

/-- What becomes of the pieces of an expression when it is lowered. -/
def traces (expression : Expression) : List Trace :=
  expression.account.traces

theorem account_mk (form : ExpressionForm Expression) (span : Span) :
    account ⟨form, span⟩ = Account.layer (form.map account) span :=
  fold_mk Account.layer form span

/-- The account of an expression is about this expression. -/
@[simp] theorem expression_account (expression : Expression) :
    expression.account.expression = expression := by
  have step : Inherited fun expression => expression.account.expression = expression := by
    intro form span same
    have kept : (form.map account).map Account.expression = form := by
      rw [ExpressionForm.map_map_eq same, ExpressionForm.map_eq_self form fun _ _ => rfl]
    rw [account_mk]
    exact congrArg (Expression.mk · span) kept
  exact induct step expression

theorem map_expression_map_account (items : List (ArrayItem Expression)) :
    (items.map (·.map account)).map (·.map Account.expression) = items := by
  rw [List.map_map]
  refine (List.map_congr_left fun item _ => ?_).trans (List.map_id items)
  obtain ⟨_ | key, value, unpack, span⟩ := item <;> simp [ArrayItem.map]

/-- What becomes of an array of attributes is what becomes of its items. -/
theorem entries_account_array (items : List (ArrayItem Expression)) (span : Span) :
    (account ⟨.array items, span⟩).entries =
      items.flatMap fun item => Account.entryTraces (item.map account) := by
  rw [account_mk]
  exact List.flatMap_map _ _ items

/-- The traces of an array literal that becomes an element. -/
theorem traces_array
    {items : List (ArrayItem Expression)}
    {shape : MarkupShape}
    {span : Span}
    (described : IsElementArray items shape) :
    traces ⟨.array items, span⟩ = Account.elementTraces shape.name (items.map (·.map account)) := by
  rw [traces, account_mk]
  simp only [ExpressionForm.map, Account.layer, map_expression_map_account,
    markupShape?_eq_some_iff.mpr described]

/-- The traces of anything else are those of its parts. -/
theorem traces_of_not_describesElement
    {form : ExpressionForm Expression}
    {span : Span}
    (plain : ¬DescribesElement ⟨form, span⟩) :
    traces ⟨form, span⟩ = (Account.partTraces (form.map account)).listing .kept := by
  rw [traces, account_mk]
  cases form with
  | array items =>
      have none_described : markupShape? items = none := by
        rw [← Option.not_isSome_iff_eq_none]
        exact fun described => plain ⟨items, rfl, described⟩
      simp only [ExpressionForm.map, Account.layer, map_expression_map_account, none_described]
  | _ => rfl

/-! ## Pieces and their traces -/

variable {g : Trace → List Piece} {items attributes : List (ArrayItem Expression)}
  {shape : MarkupShape} {form : ExpressionForm Expression} {span : Span} {value : Expression}

/-- The marks that an item loses are its marks. -/
theorem flatMap_lostMarks
    (same : ∀ piece, g (.lost piece) = [piece])
    (item : ArrayItem Expression) :
    (Account.lostMarks (item.map account)).flatMap g = (item.map pieces).marks id := by
  rw [Account.lostMarks, ArrayItem.flatMap_marks same]
  obtain ⟨_ | key, value, _ | _, span⟩ := item <;>
    simp [ArrayItem.map, ArrayItem.marks, List.flatMap_map, same]

/-- What visited parts leave makes up what the form leaves. -/
theorem flatMap_listing_partTraces
    {f : Expression → Expression}
    (kept : ∀ piece, g (.kept piece) = [piece])
    (inside : ∀ part ∈ form.visited, part.traces.flatMap g = (f part).pieces) :
    ((Account.partTraces (form.map account)).listing .kept).flatMap g =
      pieces ⟨form.mapVisited f, span⟩ := by
  have unchanged (owner : Expression) : (owner.pieces.map Trace.kept).flatMap g = owner.pieces := by
    simp [List.flatMap_map, kept]
  rw [ExpressionForm.flatMap_listing kept, pieces_mk]
  refine congrArg (ExpressionForm.listing id) ?_
  have all (inside : ∀ part ∈ form.expressions, part.traces.flatMap g = (f part).pieces) :
      ((form.map account).map Account.traces).map (List.flatMap g) = (form.map f).map pieces := by
    have parts : (form.map account).map Account.traces = form.map traces :=
      ExpressionForm.map_map_eq fun _ _ => rfl
    have changed : (form.map f).map pieces = form.map fun part => (f part).pieces :=
      ExpressionForm.map_map_eq fun _ _ => rfl
    rw [parts, changed, ExpressionForm.map_map_eq inside]
  have arguments_eq {arguments : List (Argument Expression)}
      (inside : ∀ part ∈ arguments.map Argument.value, part.traces.flatMap g = (f part).pieces) :
      ((arguments.map (·.map account)).map (·.map Account.traces)).map (·.map (List.flatMap g)) =
        (arguments.map (·.map f)).map (·.map pieces) := by
    simp only [List.map_map]
    refine List.map_congr_left fun argument member => ?_
    exact congrArg (Argument.mk · argument.unpack argument.span)
      (inside _ (List.mem_map_of_mem member))
  cases form with
  | staticCall owner name arguments =>
      simp only [ExpressionForm.map, Account.partTraces, ExpressionForm.mapVisited,
        expression_account, unchanged]
      rw [arguments_eq inside]
  | classConstant owner name =>
      simp only [ExpressionForm.map, Account.partTraces, ExpressionForm.mapVisited,
        expression_account, unchanged]
  | _ => exact all inside

/-- A key that names an attribute is a string, or there is none. -/
theorem attributeKey?_of_mem
    {item : ArrayItem Expression}
    {keys : List (Option String)}
    (found : attributes.mapM attributeKey? = some keys)
    (member : item ∈ attributes) :
    item.key = none ∨ ∃ name span, item.key = some ⟨.string name, span⟩ := by
  induction attributes generalizing keys with
  | nil => cases member
  | cons first attributes ih =>
      simp only [List.mapM_cons, Option.bind_eq_bind, Option.bind_eq_some_iff, Option.pure_def,
        Option.some.injEq] at found
      obtain ⟨key, here, keys, behind, -⟩ := found
      rcases List.mem_cons.mp member with rfl | member
      · unfold attributeKey? at here
        split at here
        · exact .inl ‹_›
        · exact .inr ⟨_, _, ‹_›⟩
        · cases here
      · exact ih behind member

theorem pieces_string (text : String) (span : Span) :
    pieces ⟨.string text, span⟩ = [.string text] :=
  rfl

/-- The traces of an item of attributes are those of its pieces. -/
theorem flatMap_before_entryTraces
    {item : ArrayItem Expression}
    (keyed : item.key = none ∨ ∃ name span, item.key = some ⟨.string name, span⟩)
    (inside : item.value.traces.flatMap Trace.before = item.value.pieces) :
    (Account.entryTraces (item.map account)).flatMap Trace.before = item.pieces := by
  obtain ⟨key, value, unpack, span⟩ := item
  have behind : value.account.traces.flatMap Trace.before = value.pieces := inside
  rcases keyed with rfl | ⟨name, place, rfl⟩ <;> cases unpack <;>
    simp [Account.entryTraces, ArrayItem.map, ArrayItem.pieces, ArrayItem.listing, ArrayItem.marks,
      Trace.before, account_mk, Account.layer, ExpressionForm.map, pieces_string, behind]

/-- What an item of attributes leaves is the entry that it becomes. -/
theorem flatMap_after_entryTraces
    {item : ArrayItem Expression}
    (keyed : item.key = none ∨ ∃ name span, item.key = some ⟨.string name, span⟩)
    (inside : item.value.traces.flatMap Trace.after = item.value.lower.pieces) :
    (Account.entryTraces (item.map account)).flatMap Trace.after = item.loweredEntry.pieces := by
  obtain ⟨key, value, unpack, span⟩ := item
  have behind : value.account.traces.flatMap Trace.after = value.lower.pieces := inside
  rcases keyed with rfl | ⟨name, place, rfl⟩ <;> cases unpack <;>
    simp [Account.entryTraces, ArrayItem.map, ArrayItem.loweredEntry, AttributeItem.pieces,
      AttributeItem.listing, Trace.after, account_mk, Account.layer, ExpressionForm.map, behind]

/-- The traces of a child are those of its pieces. -/
theorem flatMap_before_childTraces (inside : value.traces.flatMap Trace.before = value.pieces) :
    value.account.childTraces.flatMap Trace.before = value.pieces := by
  unfold Account.childTraces
  rw [expression_account]
  split
  · rename_i text isString
    obtain ⟨form, span⟩ := value
    obtain rfl : form = .string text := isString
    split <;> simp_all [Trace.before, pieces_string]
  · exact inside

/-- What a value leaves as a child is the child that it becomes. -/
theorem flatMap_after_childTraces (inside : value.traces.flatMap Trace.after = value.lower.pieces) :
    value.account.childTraces.flatMap Trace.after =
      value.loweredChild?.toList.flatMap Child.pieces := by
  unfold Account.childTraces
  rw [expression_account]
  split
  · rename_i text isString
    obtain ⟨form, span⟩ := value
    obtain rfl : form = .string text := isString
    simp only [loweredChild?]
    cases text.isEmpty <;> rfl
  · rename_i other
    rw [loweredChild?_of_ne_string other]
    refine inside.trans ?_
    generalize value.lower = after
    obtain ⟨form, span⟩ := after
    cases form with
    | markup element => exact (pieces_mk _ span).trans (List.append_nil element.pieces).symm
    | _ => exact (List.append_nil _).symm

theorem pieces_item (item : ArrayItem Expression) :
    item.pieces = .item :: ((item.map pieces).marks id ++ item.value.pieces) :=
  rfl

/-- Lost marks leave nothing. -/
theorem flatMap_after_lostMarks (item : ArrayItem Account) :
    (Account.lostMarks item).flatMap Trace.after = [] := by
  obtain ⟨_ | key, value, _ | _, span⟩ := item <;>
    simp [Account.lostMarks, ArrayItem.map, ArrayItem.marks, Trace.after]

/-- What becomes of an array literal with a name, attributes and children. -/
theorem elementTraces_map_account
    (name : String)
    (first second : ArrayItem Expression)
    (children : List (ArrayItem Expression)) :
    Account.elementTraces name ((first :: second :: children).map (·.map account)) =
      .item :: (Account.lostMarks (first.map account) ++
        .elementName name :: .item :: (Account.lostMarks (second.map account) ++
          (second.value.account.entries ++ children.flatMap fun item =>
            .item ::
              (Account.lostMarks (item.map account) ++ item.value.account.childTraces)))) := by
  simp only [List.map_cons, Account.elementTraces, List.flatMap_map]
  rfl

/-- The traces of an array literal that becomes an element are those of its pieces. -/
theorem flatMap_before_elementTraces
    (described : IsElementArray items shape)
    (inside : ∀ value ∈ elementValues items, value.traces.flatMap Trace.before = value.pieces) :
    (Account.elementTraces shape.name (items.map (·.map account))).flatMap Trace.before =
      items.flatMap ArrayItem.pieces := by
  have lost (item : ArrayItem Expression) :=
    flatMap_lostMarks (g := Trace.before) (fun _ => rfl) item
  cases described with
  | named =>
      simp only [List.map_cons, List.map_nil, Account.elementTraces, List.flatMap_cons,
        List.flatMap_append, List.flatMap_nil, lost, pieces_item, pieces_string, Trace.before]
      simp
  | @attributed _ _ _ _ _ span' _ attributes children _ _ found =>
      rw [elementValues, List.forall_mem_map, List.forall_mem_append] at inside
      have entries : (account ⟨.array attributes, span'⟩).entries.flatMap Trace.before =
          pieces ⟨.array attributes, span'⟩ := by
        rw [entries_account_array, List.flatMap_assoc, pieces_array]
        exact List.flatMap_congr fun item member =>
          flatMap_before_entryTraces (attributeKey?_of_mem found member) (inside.1 item member)
      have content : (children.flatMap fun item => Trace.item ::
          (Account.lostMarks (item.map account) ++ item.value.account.childTraces)).flatMap
            Trace.before = children.flatMap ArrayItem.pieces := by
        rw [List.flatMap_assoc]
        refine List.flatMap_congr fun item member => ?_
        rw [List.flatMap_cons, List.flatMap_append, lost,
          flatMap_before_childTraces (inside.2 item member)]
        rfl
      rw [elementTraces_map_account]
      simp only [List.flatMap_cons, List.flatMap_append, lost, entries, content, pieces_item,
        pieces_string, Trace.before]
      simp

/-- What an array literal leaves is the element that it becomes. -/
theorem flatMap_after_elementTraces
    (described : IsElementArray items shape)
    (inside : ∀ value ∈ elementValues items,
      value.traces.flatMap Trace.after = value.lower.pieces) :
    (Account.elementTraces shape.name (items.map (·.map account))).flatMap Trace.after =
      (loweredElement shape items span).pieces := by
  rw [Element.pieces_eq]
  cases described with
  | named =>
      simp only [List.map_cons, List.map_nil, Account.elementTraces, List.flatMap_cons,
        List.flatMap_append, List.flatMap_nil, flatMap_after_lostMarks, Trace.after]
      rfl
  | @attributed _ _ _ _ _ span' _ attributes children _ _ found =>
      rw [elementValues, List.forall_mem_map, List.forall_mem_append] at inside
      have entries : (account ⟨.array attributes, span'⟩).entries.flatMap Trace.after =
          (attributes.map ArrayItem.loweredEntry).flatMap AttributeItem.pieces := by
        rw [entries_account_array, List.flatMap_assoc, List.flatMap_map]
        exact List.flatMap_congr fun item member =>
          flatMap_after_entryTraces (attributeKey?_of_mem found member) (inside.1 item member)
      have content : (children.flatMap fun item => Trace.item ::
          (Account.lostMarks (item.map account) ++ item.value.account.childTraces)).flatMap
            Trace.after =
          (children.filterMap fun item => item.value.loweredChild?).flatMap Child.pieces := by
        rw [List.flatMap_assoc, List.filterMap_eq_flatMap_toList, List.flatMap_assoc]
        refine List.flatMap_congr fun item member => ?_
        rw [List.flatMap_cons, List.flatMap_append, flatMap_after_lostMarks,
          flatMap_after_childTraces (inside.2 item member)]
        rfl
      rw [elementTraces_map_account]
      simp only [List.flatMap_cons, List.flatMap_append, flatMap_after_lostMarks, entries, content,
        Trace.after]
      rfl

/-- The traces of an expression are those of its pieces. -/
theorem flatMap_before_traces (expression : Expression) :
    expression.traces.flatMap Trace.before = expression.pieces := by
  induction expression using induct_lowering with
  | turned items shape span described inside =>
      rw [traces_array described, pieces_array]
      exact flatMap_before_elementTraces described inside
  | plain form span describes inside =>
      rw [traces_of_not_describesElement describes,
        flatMap_listing_partTraces (f := fun part => part) (fun _ => rfl) inside,
        ExpressionForm.mapVisited_eq_self fun _ _ => rfl]

/-- What the pieces of an expression leave are the pieces of the lowered expression. -/
theorem flatMap_after_traces (expression : Expression) :
    expression.traces.flatMap Trace.after = expression.lower.pieces := by
  induction expression using induct_lowering with
  | turned items shape span described inside =>
      rw [traces_array described, lower_array described, pieces_mk]
      exact flatMap_after_elementTraces described inside
  | plain form span describes inside =>
      rw [traces_of_not_describesElement describes, lower_of_not_describesElement describes]
      exact flatMap_listing_partTraces (fun _ => rfl) inside

/-! ## Lost pieces -/

/-- Nothing is lost where an item has no key and no ellipsis. -/
theorem forall_lostMarks_iff {item : ArrayItem Expression} :
    (∀ trace ∈ Account.lostMarks (item.map account), trace.isLost = false) ↔
      item.key = none ∧ item.unpack = false := by
  obtain ⟨_ | key, value, _ | _, span⟩ := item <;>
    simp [Account.lostMarks, ArrayItem.map, ArrayItem.marks, Trace.isLost]

/-- An item of attributes loses its ellipsis where it has a key. -/
theorem forall_entryTraces_iff
    {item : ArrayItem Expression}
    (keyed : item.key = none ∨ ∃ name span, item.key = some ⟨.string name, span⟩) :
    (∀ trace ∈ Account.entryTraces (item.map account), trace.isLost = false) ↔
      (item.key.isSome = true → item.unpack = false) ∧
        ∀ trace ∈ item.value.traces, trace.isLost = false := by
  obtain ⟨key, value, unpack, span⟩ := item
  rcases keyed with rfl | ⟨name, place, rfl⟩ <;> cases unpack <;>
    simp [Account.entryTraces, ArrayItem.map, Trace.isLost, account_mk, Account.layer,
      ExpressionForm.map, traces]

/-- A child loses what is lost in its value. -/
theorem forall_childTraces_iff :
    (∀ trace ∈ value.account.childTraces, trace.isLost = false) ↔
      ∀ trace ∈ value.traces, trace.isLost = false := by
  unfold Account.childTraces
  rw [expression_account]
  split
  · rename_i text isString
    obtain ⟨form, span⟩ := value
    obtain rfl : form = .string text := isString
    have kept : traces ⟨.string text, span⟩ = [.kept (.string text)] := rfl
    rw [kept]
    split <;> simp [Trace.isLost]
  · rfl

/-- Only attributes have keys, and only what is spread among them is unpacked. -/
structure HasPlainItems (items : List (ArrayItem Expression)) : Prop where
  plain : ∀ item ∈ items, item.key = none ∧ item.unpack = false
  named : ∀ item ∈ attributeItems items, item.key.isSome = true → item.unpack = false

/-- An array literal that becomes an element loses the marks of its own items. -/
theorem forall_elementTraces_iff (described : IsElementArray items shape) :
    (∀ trace ∈ Account.elementTraces shape.name (items.map (·.map account)), trace.isLost = false) ↔
      HasPlainItems items ∧
        ∀ value ∈ elementValues items, ∀ trace ∈ value.traces, trace.isLost = false := by
  have fields : HasPlainItems items ↔
      (∀ item ∈ items, item.key = none ∧ item.unpack = false) ∧
        ∀ item ∈ attributeItems items, item.key.isSome = true → item.unpack = false :=
    ⟨fun ⟨plain, named⟩ => ⟨plain, named⟩, fun ⟨plain, named⟩ => ⟨plain, named⟩⟩
  rw [fields, elementValues, List.forall_mem_map, List.forall_mem_append]
  cases described with
  | named =>
      simp only [List.map_cons, List.map_nil, Account.elementTraces, List.forall_mem_cons,
        List.forall_mem_append, forall_lostMarks_iff]
      simp [Trace.isLost, attributeItems]
  | @attributed _ _ _ _ _ span' _ attributes children _ _ found =>
      have entries : (∀ trace ∈ (account ⟨.array attributes, span'⟩).entries,
          trace.isLost = false) ↔
          ∀ item ∈ attributes, (item.key.isSome = true → item.unpack = false) ∧
            ∀ trace ∈ item.value.traces, trace.isLost = false := by
        rw [entries_account_array, List.forall_mem_flatMap]
        exact forall₂_congr fun item member =>
          forall_entryTraces_iff (attributeKey?_of_mem found member)
      rw [elementTraces_map_account]
      simp only [List.forall_mem_cons, List.forall_mem_append, List.forall_mem_flatMap,
        forall_lostMarks_iff, forall_childTraces_iff, entries, attributeItems, List.drop_succ_cons,
        List.drop_zero, forall_and]
      simp only [Trace.isLost, true_and]
      tauto

/-- What holds of the traces of all parts that are visited holds where their form is listed. -/
theorem forall_partTraces_iff :
    (∀ trace ∈ (Account.partTraces (form.map account)).listing .kept, trace.isLost = false) ↔
      ∀ part ∈ form.visited, ∀ trace ∈ part.traces, trace.isLost = false := by
  have unlost (piece : Piece) : (Trace.kept piece).isLost = false := rfl
  rw [ExpressionForm.forall_mem_listing unlost]
  have all : (∀ part ∈ ((form.map account).map Account.traces).expressions,
      ∀ trace ∈ part, trace.isLost = false) ↔
        ∀ part ∈ form.expressions, ∀ trace ∈ part.traces, trace.isLost = false := by
    rw [ExpressionForm.expressions_map, ExpressionForm.expressions_map, List.forall_mem_map,
      List.forall_mem_map]
    rfl
  cases form with
  | staticCall owner name arguments =>
      simp [ExpressionForm.map, Account.partTraces, ExpressionForm.visited,
        ExpressionForm.expressions, ExpressionForm.parts, Argument.map, Trace.isLost, traces]
  | classConstant owner name =>
      simp [ExpressionForm.map, Account.partTraces, ExpressionForm.visited,
        ExpressionForm.expressions, ExpressionForm.parts, Trace.isLost]
  | _ => exact all

/-- Nothing is lost where every array literal that becomes an element has plain items. -/
theorem forall_traces_iff (expression : Expression) :
    (∀ trace ∈ expression.traces, trace.isLost = false) ↔
      expression.AllTurned fun items _ _ => HasPlainItems items := by
  induction expression using induct_lowering with
  | turned items shape span described inside =>
      rw [traces_array described, forall_elementTraces_iff described,
        allTurned_array_iff described]
      exact and_congr_right fun _ => forall₂_congr inside
  | plain form span describes inside =>
      rw [traces_of_not_describesElement describes, forall_partTraces_iff,
        allTurned_iff_of_not_describesElement describes]
      exact forall₂_congr inside

/--
Every piece of an expression leaves a trace, and what is left are the pieces of the lowered
expression.  They are all that is to stay of the pieces exactly when in every array literal that
becomes an element only attributes have keys, and only spreads have ellipses.
-/
theorem pieces_lower (expression : Expression) :
    expression.traces.flatMap Trace.before = expression.pieces ∧
      expression.traces.flatMap Trace.after = expression.lower.pieces ∧
      (expression.lower.pieces = expression.traces.flatMap Trace.expected ↔
        expression.AllTurned fun items _ _ => HasPlainItems items) := by
  refine ⟨flatMap_before_traces expression, flatMap_after_traces expression, ?_⟩
  rw [← flatMap_after_traces, Trace.flatMap_after_eq_iff, forall_traces_iff]

/-- Of a child with an ellipsis only the value stays. -/
theorem pieces_lower_unpackedChild :
    ∃ budget expression, ofText "[ 'div' , [ ] , ... $children ]" budget = .ok expression ∧
      Piece.unpack ∈ expression.pieces ∧
      expression.lower.pieces = [.elementName "div", .variable "children"] ∧
      expression.lower.pieces ≠ expression.traces.flatMap Trace.expected := by
  have isIdentifier : IsIdentifier "children".toList := ⟨rfl, by decide⟩
  have operand : IsOperand _ ⟨.variable "children", default⟩ :=
    (spells_variable isIdentifier).isOperand rfl
  have entry : IsEntry true _ ⟨none, _, true, default⟩ :=
    (operand.leads.mono (Nat.zero_le _)).isEntry_unpack
  obtain ⟨budget, name, noAttributes, ⟨form, place'⟩, place, span, read, described, empty, same⟩ :=
    exists_ofText_onlyChild entry
  obtain rfl : form = .variable "children" := by
    cases form <;> simp_all
  refine ⟨budget, _, read, ?_, ?_, ?_⟩
  · rw [pieces_array]
    exact List.mem_flatMap.mpr ⟨_, .tail _ (.tail _ (.head _)), .tail _ (.head _)⟩
  · rw [lower_array described, pieces_mk]
    change (loweredElement _ _ _).pieces = _
    rw [Element.pieces_eq, loweredElement, empty]
    rfl
  · rw [← flatMap_after_traces, Ne, Trace.flatMap_after_eq_iff, forall_traces_iff,
      allTurned_array_iff described]
    rintro ⟨plain, -⟩
    exact Bool.noConfusion (plain.plain _ (.tail _ (.tail _ (.head _)))).2

end Expression

end EmbeddedMarkup
