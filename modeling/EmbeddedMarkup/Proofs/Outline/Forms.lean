import EmbeddedMarkup.Outline.Expression
import EmbeddedMarkup.Proofs.Tree.Parts

/-!
# Reading the outline of a form

The title of a block says what it is the outline of, and its entries stand in a fixed order.  So the
outline of a form tells the form, up to its spans, around the outlines of its parts.  A number is
told as far as its text tells it.
-/

namespace EmbeddedMarkup

/-- All operators. -/
def BinaryOperator.all : List BinaryOperator :=
  [.concat, .plus, .minus, .mul, .div, .mod, .equal, .notEqual, .identical, .notIdentical, .smaller,
    .smallerOrEqual, .greater, .greaterOrEqual, .booleanAnd, .booleanOr, .logicalAnd, .logicalOr,
    .logicalXor, .coalesce]

namespace Outline

/-- Without positions a node is titled by its kind. -/
@[simp] theorem node_false (kind : String) (span : Span) (fields : List (String × Outline)) :
    node false kind span fields = .block kind fields := by
  simp [node]

/-! ## Taking outlines apart -/

/-- The title of a block. -/
def title : Outline → String
  | .text _ => ""
  | .block title _ => title

/-- The text of an outline that is one. -/
def value : Outline → String
  | .text value => value
  | .block _ _ => ""

/-- The entries of a block, without their labels. -/
def items : Outline → List Outline
  | .text _ => []
  | .block _ entries => entries.map (·.2)

/-- An entry of a block, counted from zero. -/
def item (outline : Outline) (index : Nat) : Outline :=
  outline.items[index]?.getD (.text "")

/-- A part that is not absent is a block. -/
def part? : Outline → Option Outline
  | .text _ => none
  | .block title entries => some (.block title entries)

/-- The entries of a list are those that it was made of. -/
@[simp] theorem items_list (entries : List Outline) : (list entries).items = entries := by
  simp [list, items, List.mapIdx_eq_zipIdx_map, Function.comp_def]

/-- Lists of the same outline have the same entries. -/
theorem list_inj {entries entries' : List Outline} (same : list entries = list entries') :
    entries = entries' := by
  rw [← items_list entries, same, items_list]

/-! ## Telling the form -/

/-- The item of an array literal that an outline shows. -/
def readItem (outline : Outline) : ArrayItem Outline :=
  ⟨(outline.item 0).part?, outline.item 1, (outline.item 3).value == "true", default⟩

/-- The argument that an outline shows. -/
def readArgument (outline : Outline) : Argument Outline :=
  ⟨outline.item 1, (outline.item 3).value == "true", default⟩

/-- The parameter that an outline shows. -/
def readParameter (outline : Outline) : Parameter :=
  ⟨((outline.item 0).item 0).value, default⟩

/-- The integer that a text is the decimal notation of. -/
def readInt (text : String) : Int :=
  match text.toList with
  | '-' :: digits => -(Nat.ofDigitChars 10 digits 0 : Int)
  | digits => (Nat.ofDigitChars 10 digits 0 : Int)

/-- The operator that a title names. -/
def readOperator (title : String) : BinaryOperator :=
  (BinaryOperator.all.find? fun operator =>
    title == "Expr_BinaryOp_" ++ operator.label).getD .concat

/-- The form that an outline shows, where numbers are read by `number`.  Of markup nothing is told
but that it is markup. -/
def readForm (number : String → Double) (outline : Outline) : ExpressionForm Outline :=
  let name := ((outline.item 1).item 0).value
  let arguments := (outline.item 2).items.map readArgument
  match outline.title with
  | "Expr_Variable" => .variable (outline.item 0).value
  | "Expr_ConstFetch" => .constant ((outline.item 0).item 0).value
  | "Name" => .bareName (outline.item 0).value
  | "Scalar_String" => .string (outline.item 0).value
  | "Scalar_Int" => .int (readInt (outline.item 0).value)
  | "Scalar_Float" => .float (number (outline.item 0).value)
  | "Expr_Array" => .array ((outline.item 0).items.map readItem)
  | "Expr_PropertyFetch" => .property (outline.item 0) name false
  | "Expr_NullsafePropertyFetch" => .property (outline.item 0) name true
  | "Expr_MethodCall" => .methodCall (outline.item 0) name arguments false
  | "Expr_NullsafeMethodCall" => .methodCall (outline.item 0) name arguments true
  | "Expr_StaticCall" => .staticCall (outline.item 0) name arguments
  | "Expr_ClassConstFetch" => .classConstant (outline.item 0) name
  | "Expr_FuncCall" => .call (outline.item 0) ((outline.item 1).items.map readArgument)
  | "Expr_ArrayDimFetch" => .entry (outline.item 0) (outline.item 1).part?
  | "Expr_BooleanNot" => .not (outline.item 0)
  | "Expr_UnaryMinus" => .negate (outline.item 0)
  | "Expr_Ternary" => .ternary (outline.item 0) (outline.item 1).part? (outline.item 2)
  | "Expr_Assign" => .assign (outline.item 0) (outline.item 1)
  | "Expr_ArrowFunction" =>
      .arrowFunction ((outline.item 0).items.map readParameter) (outline.item 1)
  | "JSX_Element" => .markup ⟨"", [], [], none, default⟩
  | title => .binary (readOperator title) (outline.item 0) (outline.item 1)

/-- What stands for a part is a block. -/
def IsBlock (outline : Outline) : Prop :=
  outline.part? = some outline

theorem part?_optional
    {part : Option Outline}
    (blocks : ∀ outline ∈ part, outline.IsBlock) :
    (optional part).part? = part := by
  cases part with
  | none => rfl
  | some outline => exact blocks outline rfl

@[simp] theorem value_flag (value : Bool) : ((flag value).value == "true") = value := by
  cases value <;> rfl

theorem readItem_arrayItem
    {entry : ArrayItem Outline}
    (blocks : ∀ outline ∈ entry.key, outline.IsBlock) :
    readItem (arrayItem false entry) = entry.unspanned := by
  obtain ⟨key, value, unpack, span⟩ := entry
  have key : (optional key).part? = key := part?_optional blocks
  simp [readItem, arrayItem, item, items, ArrayItem.unspanned, key]

@[simp] theorem readArgument_argument (entry : Argument Outline) :
    readArgument (argument false entry) = entry.unspanned := by
  simp [readArgument, argument, item, items, Argument.unspanned]

@[simp] theorem readParameter_parameter (entry : Parameter) :
    readParameter (parameter false entry) = entry.unspanned := rfl

theorem readInt_toString (value : Int) : readInt (toString value) = value := by
  cases value with
  | ofNat value =>
      have spelled : (toString (Int.ofNat value)).toList = Nat.toDigits 10 value := by
        rw [Int.toString_eq_repr, Int.repr, Nat.toList_repr]
      rw [readInt, spelled]
      split
      · rename_i digits signed
        have sign : '-' ∈ Nat.toDigits 10 value := by
          rw [signed]
          exact List.mem_cons_self
        cases Nat.isDigit_of_mem_toDigits (by decide) (Nat.le_refl 10) sign
      · rw [Nat.ofDigitChars_ten_toDigits]
        rfl
  | negSucc value =>
      have spelled : (toString (Int.negSucc value)).toList =
          '-' :: Nat.toDigits 10 (value + 1) := by
        rw [Int.toString_eq_repr, Int.repr, String.toList_append, Nat.toList_repr]
        rfl
      rw [readInt, spelled]
      exact congrArg (fun n : Nat => -(n : Int)) Nat.ofDigitChars_ten_toDigits

/-- The outline of a form that is no markup tells the form, up to its spans. -/
theorem readForm_form
    {number : String → Double}
    {shown : ExpressionForm Outline}
    (span : Span)
    (blocks : ∀ outline ∈ shown.expressions, outline.IsBlock)
    (numbers : ∀ value, shown = .float value → number value.plainText = value)
    (unmarked : ∀ element, shown ≠ .markup element) :
    readForm number (form false shown span) = shown.unspanned := by
  have argumentsRead (arguments : List (Argument Outline)) :
      (Outline.arguments false arguments).items.map readArgument =
        arguments.map Argument.unspanned := by
    simp [Outline.arguments, Function.comp_def]
  cases shown with
  | markup element => exact absurd rfl (unmarked element)
  | int value => exact congrArg ExpressionForm.int (readInt_toString value)
  | float value => exact congrArg ExpressionForm.float (numbers value rfl)
  | array entries =>
      have read : (list (entries.map (arrayItem false))).items.map readItem =
          entries.map ArrayItem.unspanned := by
        rw [items_list, List.map_map]
        refine List.map_congr_left fun entry member => readItem_arrayItem fun outline key => ?_
        exact blocks outline (List.mem_flatMap.mpr
          ⟨entry, member, List.mem_append_left _ (Option.mem_toList.mpr key)⟩)
      exact congrArg ExpressionForm.array read
  | property object name nullsafe => cases nullsafe <;> rfl
  | methodCall object name arguments nullsafe =>
      cases nullsafe <;>
        exact congrArg (ExpressionForm.methodCall object name · _) (argumentsRead arguments)
  | staticCall owner name arguments =>
      exact congrArg (ExpressionForm.staticCall owner name) (argumentsRead arguments)
  | call callee arguments =>
      exact congrArg (ExpressionForm.call callee) (argumentsRead arguments)
  | entry collection index =>
      have read : (optional index).part? = index :=
        part?_optional fun outline member =>
          blocks outline (List.mem_cons_of_mem _ (Option.mem_toList.mpr member))
      exact congrArg (ExpressionForm.entry collection) read
  | binary operator left right => cases operator <;> rfl
  | ternary condition ifTrue ifFalse =>
      have read : (optional ifTrue).part? = ifTrue :=
        part?_optional fun outline member => blocks outline
          (List.mem_cons_of_mem _ (List.mem_append_left _ (Option.mem_toList.mpr member)))
      exact congrArg (ExpressionForm.ternary condition · ifFalse) read
  | arrowFunction parameters body =>
      have read : (list (parameters.map (parameter false))).items.map readParameter =
          parameters.map Parameter.unspanned := by
        simp [Function.comp_def]
      exact congrArg (ExpressionForm.arrowFunction · body) read
  | _ => rfl

end Outline

end EmbeddedMarkup
