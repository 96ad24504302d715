import EmbeddedMarkup.Proofs.Reading.Leading
import Mathlib.Data.List.Forall2

/-!
# Texts of lists, accesses and arrow functions

Entries are written with commas between them and a symbol behind them that closes the list.
Members, arguments and indices are accessed on a primary.  There is one lemma for every way to
write them; trees are compared up to spans.
-/

namespace EmbeddedMarkup

/-- Texts with commas between them and the symbol that closes the list. -/
def listed (close : Symbol) : List (List Char) → List Char
  | [] => close.text
  | [text] => spaced [text, close.text]
  | text :: texts => spaced [text, Symbol.comma.text, listed close texts]

/-- The symbol may close a list. -/
def Symbol.closesList : Symbol → Bool
  | .rightParen | .rightBracket => true
  | _ => false

/-- The symbol may follow an entry. -/
def Symbol.endsEntry : Symbol → Bool
  | .comma | .rightParen | .rightBracket => true
  | _ => false

/-- An argument of a call, as an array item without a key. -/
def Argument.toItem (argument : Argument Expression) : ArrayItem Expression :=
  ⟨none, argument.value, argument.unpack, argument.span⟩

@[simp] theorem Argument.toArgument_toItem (argument : Argument Expression) :
    argument.toItem.toArgument = argument := rfl

/-- How a parameter is written. -/
def Parameter.printed (parameter : Parameter) : List Char :=
  '$' :: parameter.name.toList

variable {text more : List Char} {expression left right : Expression} {c d : Cursor} {span : Span}
  {keyed : Bool} {close kind : Symbol}

/-! ## Lists -/

section Lists

/-- What is ahead ends an entry. -/
structure EndsEntry (d : Cursor) : Prop where
  separated : Separated d.rest
  ahead : ∃ kind behind, NextLexeme d (.symbol kind) behind ∧ kind.endsEntry = true

/-- No symbol that ends an entry connects anything. -/
theorem EndsEntry.released {release : Nat} (ends : EndsEntry d) : Released release d := by
  obtain ⟨separated, kind, behind, next, endsEntry⟩ := ends
  refine ⟨separated, .symbol kind, behind, next, ?_, ?_⟩
  · cases kind <;> first | rfl | cases endsEntry
  · intro binding connects
    cases kind <;> cases endsEntry <;> cases connects

theorem EndsEntry.mayTake (ends : EndsEntry d) (other : kind.endsEntry = false) :
    MayTake kind d false d := by
  obtain ⟨-, found, behind, next, endsEntry⟩ := ends
  refine .left next ?_
  rintro same
  cases same
  rw [endsEntry] at other
  cases other

/-- In front of a symbol that ends entries, an entry ends. -/
theorem endsEntry_of_stands
    (stands : Stands kind.text c d)
    (separated : Separated c.rest)
    (separated' : Separated d.rest)
    (endsEntry : kind.endsEntry = true) :
    EndsEntry c :=
  ⟨separated, kind, d, (spells_symbol kind).nextLexeme stands separated', endsEntry⟩

/-- The text is an entry of a list. -/
def IsEntry (keyed : Bool) (text : List Char) (item : ArrayItem Expression) : Prop :=
  ∀ ⦃c d⦄, Stands text c d → EndsEntry d →
    (∃ lexeme behind, NextLexeme c lexeme behind ∧
      ∀ kind : Symbol, kind.endsEntry = true → lexeme ≠ .symbol kind) ∧
    ∃ read, read.withoutSpans = item.withoutSpans ∧ Makes (.entry keyed read) c d

@[simp] theorem ArrayItem.withoutSpans_mk (key : Option Expression) (unpack : Bool) :
    ArrayItem.withoutSpans ⟨key, expression, unpack, span⟩ =
      ⟨key.map Expression.withoutSpans, expression.withoutSpans, unpack, default⟩ := rfl

/-- An item that has no key without its spans has none. -/
theorem ArrayItem.exists_of_withoutSpans_eq
    {item : ArrayItem Expression}
    {unpack : Bool}
    (same : item.withoutSpans = ⟨none, expression, unpack, span⟩) :
    ∃ value place, item = ⟨none, value, unpack, place⟩ ∧ value.withoutSpans = expression := by
  obtain ⟨_ | key, value, unpacked, place⟩ := item
  · rw [withoutSpans_mk, ArrayItem.mk.injEq] at same
    obtain ⟨-, kept, rfl, -⟩ := same
    exact ⟨value, place, rfl, kept⟩
  · simp at same

/-- What starts an operand ends no entry and is no ellipsis. -/
theorem Lexeme.ne_of_startsOperand
    {lexeme : Lexeme}
    (starts : lexeme.startsOperand = true) :
    lexeme ≠ .symbol .ellipsis ∧
      ∀ kind : Symbol, kind.endsEntry = true → lexeme ≠ .symbol kind := by
  constructor
  · rintro rfl
    cases starts
  · rintro kind endsEntry rfl
    cases kind <;> cases endsEntry <;> cases starts

/-- An expression alone is an entry. -/
theorem Leads.isEntry
    (leads : Leads 0 0 text expression) :
    IsEntry keyed text ⟨none, expression, false, span⟩ := by
  intro c d stands ends
  obtain ⟨skipped, -⟩ := leads.reads stands ends.released
  obtain ⟨read, same, makes⟩ := leads.makes stands ends.released ends.released
  obtain ⟨lexeme, behind, next, starts⟩ := makes.exists_nextLexeme
  obtain ⟨dotless, other⟩ := Lexeme.ne_of_startsOperand starts
  obtain ⟨level, reads⟩ := makes
  exact ⟨⟨lexeme, behind, next, other⟩, ⟨none, read, false, c.skipBlanks.spanTo d⟩, by simp [same],
    level, .plainEntry skipped (.left next dotless) reads fun _ => ends.mayTake rfl⟩

/-- An ellipsis in front of an expression makes an entry that is unpacked. -/
theorem Leads.isEntry_unpack
    (leads : Leads 0 0 text expression) :
    IsEntry keyed (spaced [Symbol.ellipsis.text, text]) ⟨none, expression, true, span⟩ := by
  intro c d stands ends
  obtain ⟨behind, dots, separated, stands⟩ := stands.split
  have skipped := (spells_symbol .ellipsis).skipTrivia dots separated
  have next := (spells_symbol .ellipsis).nextLexeme dots separated
  obtain ⟨read, same, level, reads⟩ := leads.makes stands ends.released ends.released
  refine ⟨⟨_, behind, next, ?_⟩, ⟨none, read, true, c.skipBlanks.spanTo d⟩, by simp [same],
    level, .plainEntry skipped (.taken next) reads fun _ => ends.mayTake rfl⟩
  rintro kind endsEntry same
  cases same
  cases endsEntry

/-- A double arrow between two expressions makes an entry with a key. -/
theorem Leads.isEntry_keyed
    (leads : Leads 0 0 text left)
    (leads' : Leads 0 0 more right) :
    IsEntry true (spaced [text, Symbol.doubleArrow.text, more])
      ⟨some left, right, false, span⟩ := by
  intro c d stands ends
  obtain ⟨arrow, stands, separated, stands'⟩ := stands.split
  obtain ⟨behind, arrow_stands, separated', stands'⟩ := stands'.split
  have next := (spells_symbol .doubleArrow).nextLexeme arrow_stands separated'
  have released : Released 0 arrow :=
    (spells_symbol .doubleArrow).released arrow_stands separated separated' rfl
      (fun _ none => nomatch none)
  obtain ⟨skipped, -⟩ := leads.reads stands released
  obtain ⟨read, same, makes⟩ := leads.makes stands released released
  obtain ⟨lexeme, after, first, starts⟩ := makes.exists_nextLexeme
  obtain ⟨dotless, other⟩ := Lexeme.ne_of_startsOperand starts
  obtain ⟨read', same', makes'⟩ := leads'.makes stands' ends.released ends.released
  obtain ⟨level, reads, reads'⟩ := makes.both makes'
  exact ⟨⟨lexeme, after, first, other⟩, ⟨some read, read', false, c.skipBlanks.spanTo d⟩,
    by simp [same, same'], level, .keyedEntry skipped (.left first dotless) reads next reads'⟩

/-- Entries in a row are the entries of a list. -/
theorem makes_entries
    {texts : List (List Char)}
    {items : List (ArrayItem Expression)}
    (entries : List.Forall₂ (IsEntry keyed) texts items)
    (closes : close.closesList = true)
    (stands : Stands (listed close texts) c d)
    (separated : Separated d.rest) :
    ∃ read : List (ArrayItem Expression),
      read.map ArrayItem.withoutSpans = items.map ArrayItem.withoutSpans ∧
        Makes (.entries close keyed read) c d := by
  have ends : close.endsEntry = true := by
    cases close <;> first | rfl | cases closes
  induction entries generalizing c with
  | nil => exact ⟨[], rfl, 0, .noEntries ((spells_symbol close).nextLexeme stands separated)⟩
  | cons entry entries ih =>
      cases entries with
      | nil =>
          obtain ⟨middle, stands, separated', close_stands⟩ := stands.split
          have next := (spells_symbol close).nextLexeme close_stands separated
          obtain ⟨⟨lexeme, behind, first, other⟩, read, same, level, reads⟩ :=
            entry stands (endsEntry_of_stands close_stands separated' separated ends)
          have commaless : MayTake .comma middle false middle := by
            refine .left next ?_
            rintro same
            cases same
            cases closes
          exact ⟨[read], by simp [same], level,
            .lastEntry first (other close ends) reads commaless next⟩
      | cons entry' entries =>
          obtain ⟨middle, stands, separated', stands'⟩ := stands.split
          obtain ⟨behind, comma, separated'', stands'⟩ := stands'.split
          have next := (spells_symbol .comma).nextLexeme comma separated''
          obtain ⟨⟨lexeme, after, first, other⟩, read, same, makes⟩ :=
            entry stands (endsEntry_of_stands comma separated' separated'' rfl)
          obtain ⟨others, same', makes'⟩ := ih stands'
          obtain ⟨level, reads, reads'⟩ := makes.both makes'
          exact ⟨read :: others, by simp [same, same'], level,
            .moreEntries first (other close ends) reads (.taken next) reads'⟩

end Lists

/-! ## Members and arguments -/

section Members

variable {name : String} {texts : List (List Char)} {arguments : List (Argument Expression)}

/-- How a member is written, with its arguments if it is called. -/
def memberText (name : String) : Option (List (List Char)) → List Char
  | none => name.toList
  | some texts => spaced [name.toList, Symbol.leftParen.text, listed .rightParen texts]

/-- The text is an argument of a call. -/
def IsArgument (text : List Char) (argument : Argument Expression) : Prop :=
  IsEntry false text argument.toItem

theorem ArrayItem.withoutSpans_toArgument (item : ArrayItem Expression) :
    item.toArgument.withoutSpans = item.withoutSpans.toArgument := rfl

/-- Arguments in a row are the arguments of a call. -/
theorem makes_arguments
    (isArguments : List.Forall₂ IsArgument texts arguments)
    (stands : Stands (listed .rightParen texts) c d)
    (separated : Separated d.rest) :
    ∃ read : List (ArrayItem Expression),
      (read.map ArrayItem.toArgument).map Argument.withoutSpans =
        arguments.map Argument.withoutSpans ∧
      Makes (.entries .rightParen false read) c d := by
  have entries : List.Forall₂ (IsEntry false) texts (arguments.map Argument.toItem) :=
    List.forall₂_map_right_iff.mpr isArguments
  obtain ⟨read, same, makes⟩ := makes_entries entries rfl stands separated
  refine ⟨read, ?_, makes⟩
  have arguments_eq := congrArg (List.map ArrayItem.toArgument) same
  simpa [Function.comp_def, ← ArrayItem.withoutSpans_toArgument] using arguments_eq

/-- The text behind an arrow or a double colon is a member, and its arguments if it is called. -/
def IsMember (text : List Char) (name : String)
    (arguments : Option (List (Argument Expression))) : Prop :=
  ∀ ⦃c d⦄, Stands text c d → Released signPower d → ∃ read : Option (List (Argument Expression)),
    read.map (List.map Argument.withoutSpans) = arguments.map (List.map Argument.withoutSpans) ∧
      Makes (.member name read) c d

/-- A word is a member. -/
theorem isMember_plain (isWord : IsWord name.toList) :
    IsMember (memberText name none) name none := by
  intro c d stands released
  obtain ⟨separated, lexeme, behind, next, plain, -⟩ := released
  have word := (spells_word isWord).nextLexeme stands separated
  rw [String.ofList_toList] at word
  refine ⟨none, rfl, 0, .plainMember word next ?_⟩
  rintro rfl
  cases plain

/-- A word in front of arguments is a member that is called. -/
theorem isMember_called
    (isWord : IsWord name.toList)
    (isArguments : List.Forall₂ IsArgument texts arguments) :
    IsMember (memberText name (some texts)) name (some arguments) := by
  intro c d stands released
  obtain ⟨opened, stands, separated, stands'⟩ := Stands.split stands
  obtain ⟨behind, paren, separated', stands'⟩ := stands'.split
  have word := (spells_word isWord).nextLexeme stands separated
  rw [String.ofList_toList] at word
  have next := (spells_symbol .leftParen).nextLexeme paren separated'
  obtain ⟨read, same, level, reads⟩ := makes_arguments isArguments stands' released.separated
  exact ⟨some (read.map ArrayItem.toArgument), by rw [Option.map_some, Option.map_some, same],
    level, .calledMember word next reads⟩

end Members

/-! ## Accesses -/

section Accesses

variable {name : String} {base : Expression} {texts : List (List Char)}
  {form : ExpressionForm Expression} {admits : Lexeme → Prop}

/-- The text behind a symbol makes this form of the expression in front of the symbol. -/
def IsAccess (kind : Symbol) (text : List Char) (base : Expression)
    (form : ExpressionForm Expression) : Prop :=
  ∀ ⦃c behind d operand⦄, operand.withoutSpans = base.withoutSpans →
    NextLexeme c (.symbol kind) behind → Stands text behind d → Released signPower d →
    ∃ read, read.withoutSpans = form.withoutSpans ∧ Makes (.access operand read) c d

/-- An access on a primary is an operand. -/
theorem IsPrimary.access
    (primary : IsPrimary admits text base)
    (admitted : admits (.symbol kind))
    (isAccess : IsAccess kind more base form)
    (proper : Expression.isName ⟨form, span⟩ = false) :
    IsOperand (spaced [text, kind.text, more]) ⟨form, span⟩ := by
  refine ⟨primary.visible.spaced, ?_⟩
  intro c d stands released
  obtain ⟨middle, stands, separated, stands'⟩ := stands.split
  obtain ⟨behind, symbol, separated', stands'⟩ := stands'.split
  have next := (spells_symbol kind).nextLexeme symbol separated'
  obtain ⟨skipped, ⟨first, after, starts, startsPrimary⟩, operand, same, makes⟩ :=
    primary.reads stands separated next admitted
  obtain ⟨read, same', access⟩ := isAccess same next stands' released
  have alike : Expression.withoutSpans ⟨read, c.skipBlanks.spanTo d⟩ =
      Expression.withoutSpans ⟨form, span⟩ := by simp [same']
  have plain : Expression.isName ⟨read, c.skipBlanks.spanTo d⟩ = false :=
    (Expression.eq_of_withoutSpans Expression.isName_withoutSpans alike).trans proper
  obtain ⟨level, reads, reads'⟩ := access.both
    (@Released.noAccess ⟨read, c.skipBlanks.spanTo d⟩ _ d c.skipBlanks released)
  rw [Expression.nameAsConstant_of_isName_eq_false plain] at reads'
  exact ⟨skipped, ⟨read, c.skipBlanks.spanTo d⟩, alike,
    makes.operand ⟨level, .moreAccesses reads reads'⟩ skipped starts startsPrimary⟩

theorem withoutSpans_memberForm
    (base : Expression)
    (nullsafe : Bool)
    (name : String)
    (arguments : Option (List (Argument Expression))) :
    (memberForm base nullsafe (name, arguments)).withoutSpans =
      memberForm base.withoutSpans nullsafe
        (name, arguments.map (List.map Argument.withoutSpans)) := by
  cases arguments <;> simp [memberForm]

theorem withoutSpans_staticMemberForm
    (base : Expression)
    (name : String)
    (arguments : Option (List (Argument Expression))) :
    (staticMemberForm base (name, arguments)).withoutSpans =
      staticMemberForm base.withoutSpans
        (name, arguments.map (List.map Argument.withoutSpans)) := by
  cases arguments <;> simp [staticMemberForm]

/-- Members of objects stand behind arrows. -/
theorem IsMember.isAccess
    {arguments : Option (List (Argument Expression))}
    {nullsafe : Bool}
    (isMember : IsMember text name arguments) :
    IsAccess (.memberArrow nullsafe) text base (memberForm base nullsafe (name, arguments)) := by
  intro c behind d operand same next stands released
  obtain ⟨read, same', level, reads⟩ := isMember stands released
  refine ⟨memberForm operand nullsafe (name, read), ?_, level, .memberAccess next reads⟩
  rw [withoutSpans_memberForm, withoutSpans_memberForm, same, same']

/-- Members of classes stand behind double colons. -/
theorem IsMember.isAccess_static
    {arguments : Option (List (Argument Expression))}
    (isMember : IsMember text name arguments)
    (isName : base.isName = true) :
    IsAccess .doubleColon text base (staticMemberForm base (name, arguments)) := by
  intro c behind d operand same next stands released
  obtain ⟨read, same', level, reads⟩ := isMember stands released
  have named : operand.isName = true :=
    (Expression.eq_of_withoutSpans Expression.isName_withoutSpans same).trans isName
  refine ⟨staticMemberForm operand (name, read), ?_, level, .staticAccess next named reads⟩
  rw [withoutSpans_staticMemberForm, withoutSpans_staticMemberForm, same, same']

/-- Arguments stand in parentheses. -/
theorem isAccess_call
    {arguments : List (Argument Expression)}
    (isArguments : List.Forall₂ IsArgument texts arguments)
    (callable : base.isCallable = true) :
    IsAccess .leftParen (listed .rightParen texts) base (.call base arguments) := by
  intro c behind d operand same next stands released
  obtain ⟨read, same', level, reads⟩ := makes_arguments isArguments stands released.separated
  have isCallable : operand.isCallable = true :=
    (Expression.eq_of_withoutSpans Expression.isCallable_withoutSpans same).trans callable
  refine ⟨.call operand (read.map ArrayItem.toArgument), ?_, level,
    .callAccess next isCallable reads⟩
  rw [ExpressionForm.withoutSpans_call, ExpressionForm.withoutSpans_call, same, same']

/-- Brackets with nothing between them stand for a new entry. -/
theorem isAccess_newEntry :
    IsAccess .leftBracket Symbol.rightBracket.text base (.entry base none) := by
  intro c behind d operand same next stands released
  have closes := (spells_symbol .rightBracket).nextLexeme stands released.separated
  exact ⟨.entry operand none, by simp [same], 0, .entryAccess next (.absent closes) closes⟩

/-- An index stands in brackets. -/
theorem Leads.isAccess_entry
    (leads : Leads 0 0 text expression) :
    IsAccess .leftBracket (spaced [text, Symbol.rightBracket.text]) base
      (.entry base (some expression)) := by
  intro c behind d operand same next stands released
  obtain ⟨middle, stands, separated, bracket⟩ := stands.split
  have closes := (spells_symbol .rightBracket).nextLexeme bracket released.separated
  have ends := endsEntry_of_stands bracket separated released.separated rfl
  obtain ⟨read, same', makes⟩ := leads.makes stands ends.released ends.released
  obtain ⟨lexeme, after, first, starts⟩ := makes.exists_nextLexeme
  obtain ⟨-, other⟩ := Lexeme.ne_of_startsOperand starts
  obtain ⟨level, reads⟩ := makes
  exact ⟨.entry operand (some read), by simp [same, same'], level,
    .entryAccess next (.present first (other .rightBracket rfl) reads) closes⟩

end Accesses

/-! ## Arrays and arrow functions -/

section Literals

/-- Entries in brackets are an array. -/
theorem isOperand_array
    {texts : List (List Char)}
    {items : List (ArrayItem Expression)}
    (entries : List.Forall₂ (IsEntry true) texts items) :
    IsOperand (spaced [Symbol.leftBracket.text, listed .rightBracket texts])
      ⟨.array items, span⟩ := by
  have primary : IsPrimary (fun _ => True)
      (spaced [Symbol.leftBracket.text, listed .rightBracket texts]) ⟨.array items, span⟩ := by
    refine ⟨(spells_symbol .leftBracket).isVisible.spaced, ?_⟩
    intro c d _ _ stands separated _ _
    obtain ⟨opened, bracket, separated', stands⟩ := stands.split
    have skipped := (spells_symbol .leftBracket).skipTrivia bracket separated'
    have next := (spells_symbol .leftBracket).nextLexeme bracket separated'
    obtain ⟨read, same, level, reads⟩ := makes_entries entries rfl stands separated
    exact ⟨skipped, ⟨_, opened, next, rfl⟩, ⟨.array read, c.skipBlanks.spanTo d⟩, by simp [same],
      level, .array skipped next reads⟩
  exact primary.isOperand fun _ _ => trivial

/-- A text of entries in brackets is read as an array of them. -/
theorem exists_ofText_array
    {texts : List (List Char)}
    {items : List (ArrayItem Expression)}
    (entries : List.Forall₂ (IsEntry true) texts items) :
    ∃ budget read span,
      Expression.ofText
        (String.ofList (spaced [Symbol.leftBracket.text, listed .rightBracket texts])) budget =
          .ok ⟨.array read, span⟩ ∧
      read.map ArrayItem.withoutSpans = items.map ArrayItem.withoutSpans := by
  have operand := @isOperand_array default _ _ entries
  obtain ⟨whole, least, same, reads⟩ := (operand.leads.mono (Nat.zero_le _)).ofText_eq_ok
  rw [Expression.withoutSpans_mk, ExpressionForm.withoutSpans_array] at same
  obtain ⟨read, span, rfl, entries⟩ := Expression.exists_of_withoutSpans_eq_array same
  exact ⟨least, read, span, reads least (Nat.le_refl _), entries⟩

/-- Variables in a row are the parameters of an arrow function. -/
theorem makes_parameters
    {parameters : List Parameter}
    (names : ∀ parameter ∈ parameters, IsIdentifier parameter.name.toList)
    (stands : Stands (listed .rightParen (parameters.map Parameter.printed)) c d)
    (separated : Separated d.rest) :
    ∃ read : List Parameter, read.map Parameter.unspanned = parameters.map Parameter.unspanned ∧
      Makes (.parameters read) c d := by
  induction parameters generalizing c with
  | nil =>
      exact ⟨[], rfl, 0, .noParameters ((spells_symbol .rightParen).nextLexeme stands separated)⟩
  | cons parameter parameters ih =>
      obtain ⟨name, span⟩ := parameter
      obtain ⟨here, behind⟩ := List.forall_mem_cons.mp names
      cases parameters with
      | nil =>
          obtain ⟨middle, stands, separated', paren⟩ := Stands.split stands
          have closes := (spells_symbol .rightParen).nextLexeme paren separated
          have next := (spells_variable here).nextLexeme stands separated'
          obtain ⟨span', read⟩ := id next
          rw [String.ofList_toList] at read
          exact ⟨[⟨name, span'⟩], rfl, 0, .lastParameter next (by simp) (.left next (by simp))
            (.left next (by simp)) read (.left closes (by simp)) closes⟩
      | cons other parameters =>
          obtain ⟨middle, stands, separated', stands'⟩ := Stands.split stands
          obtain ⟨after, comma, separated'', stands'⟩ := stands'.split
          have commas := (spells_symbol .comma).nextLexeme comma separated''
          have next := (spells_variable here).nextLexeme stands separated'
          obtain ⟨span', read⟩ := id next
          rw [String.ofList_toList] at read
          obtain ⟨others, same, level, reads⟩ := ih behind stands'
          exact ⟨⟨name, span'⟩ :: others, by rw [List.map_cons, same]; rfl, level,
            .moreParameters next (by simp) (.left next (by simp)) (.left next (by simp)) read
              (.taken commas) reads⟩

/-- A list of parameters and a body make an arrow function. -/
theorem Leads.arrowFunction
    {parameters : List Parameter}
    (leads : Leads 0 0 text expression)
    (names : ∀ parameter ∈ parameters, IsIdentifier parameter.name.toList) :
    Leads 0 0 (spaced ["fn".toList, Symbol.leftParen.text,
      listed .rightParen (parameters.map Parameter.printed), Symbol.doubleArrow.text, text])
      ⟨.arrowFunction parameters expression, span⟩ := by
  have spells : Spells "fn".toList (.word .fn "fn") := ⟨by decide, rfl⟩
  refine ⟨spells.isVisible.spaced, ?_⟩
  intro c d stands released
  obtain ⟨opened, stands, separated, stands'⟩ := stands.split
  obtain ⟨inside, paren, separated', stands'⟩ := stands'.split
  obtain ⟨closed, list, listSeparated, stands'⟩ := stands'.split
  obtain ⟨arrow, arrow_stands, arrowSeparated, stands'⟩ := stands'.split
  have skipped := spells.skipTrivia stands separated
  have word := spells.nextLexeme stands separated
  have opens := (spells_symbol .leftParen).nextLexeme paren separated'
  have next := (spells_symbol .doubleArrow).nextLexeme arrow_stands arrowSeparated
  obtain ⟨read, same, makes⟩ := makes_parameters names list listSeparated
  obtain ⟨body, same', makes'⟩ := leads.makes stands' released released
  obtain ⟨level, reads, reads'⟩ := makes.both makes'
  have primary : Makes (.primary ⟨.arrowFunction read body, c.skipBlanks.spanTo d⟩) c d :=
    ⟨level, .function skipped word (.arrowFunction opens reads next reads')⟩
  have operand := primary.operand released.noAccess skipped word rfl
  exact ⟨skipped, ⟨.arrowFunction read body, c.skipBlanks.spanTo d⟩, by simp [same, same'],
    fun _ _ continuation => operand.continued continuation skipped⟩

end Literals

end EmbeddedMarkup
