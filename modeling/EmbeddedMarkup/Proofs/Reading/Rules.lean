import EmbeddedMarkup.Proofs.Reading.Yield

/-!
# The rules of reading

A phrase is what one of the readers makes of a stretch of text, together with what the reader
was told beforehand.  `Reads level phrase start stop` says that the text from `start` to `stop`
makes this phrase, descending by at most `level` levels of nesting.  There is a rule for every
way in which a reader can succeed.  The rules speak of cursors alone: modes, remembered tokens
and failures are left to the readers.

Everything that holds of successful readings is proved by one induction over these rules, and
that a text is read is proved by building a derivation for it.
-/

namespace EmbeddedMarkup

/-- What a reader makes of a stretch of text, with what it was told beforehand. -/
inductive Phrase where
  /-- An expression whose connectives bind to their left with `power` at least. -/
  | expression (power : Nat) (whole : Expression)
  /-- The connectives and operands behind `left`, which make it `whole`. -/
  | continuation (start : Cursor) (power : Nat) (left whole : Expression)
  /-- What a connective connects `left` with. -/
  | connection (binding : Binding) (left : Expression) (form : ExpressionForm Expression)
  /-- An expression, or nothing in front of a symbol. -/
  | optional (kind : Symbol) (part : Option Expression)
  | operand (whole : Expression)
  | primary (whole : Expression)
  | parameters (list : List Parameter)
  | arrowFunction (form : ExpressionForm Expression)
  /-- An array item or an argument; a `keyed` one may have a key. -/
  | entry (keyed : Bool) (item : ArrayItem Expression)
  /-- Entries up to and with the symbol that closes them. -/
  | entries (close : Symbol) (keyed : Bool) (items : List (ArrayItem Expression))
  | member (name : String) (arguments : Option (List (Argument Expression)))
  /-- One access or call behind `base`. -/
  | access (base : Expression) (form : ExpressionForm Expression)
  /-- The accesses and calls behind `base`, which make it `whole`. -/
  | accesses (start : Cursor) (base whole : Expression)
  | element (element : Element Expression)
  | header (header : Header Expression)
  | headerTail (tail : HeaderTail Expression)
  | attribute (item : Attribute Expression)
  | attributeValue (value : Expression)
  /-- A hole behind its opening brace. -/
  | hole (part : Option Expression)
  /-- A spread behind its opening brace. -/
  | spread (operand : Expression)
  | braces (child : Child Expression)
  /-- The content of the element `name` behind `left`, and its closing tag. -/
  | content (name : String) (left : Boundary) (children : List (Child Expression))

/-- A symbol is taken if it is next; the flag tells whether it was. -/
inductive MayTake (kind : Symbol) : Cursor → Bool → Cursor → Prop
  | taken {start stop : Cursor} :
      NextLexeme start (.symbol kind) stop → MayTake kind start true stop
  | left {start behind : Cursor} {lexeme : Lexeme} :
      NextLexeme start lexeme behind → lexeme ≠ .symbol kind → MayTake kind start false start

/-- An identifier is taken if one is next. -/
inductive MayTakeIdentifier : Cursor → Cursor → Prop
  | taken {start stop : Cursor} {text : String} :
      NextLexeme start (.word .identifier text) stop → MayTakeIdentifier start stop
  | left {start behind : Cursor} {lexeme : Lexeme} :
      NextLexeme start lexeme behind → (∀ text, lexeme ≠ .word .identifier text) →
      MayTakeIdentifier start start

/-- The form of a lexeme that is an expression alone. -/
def Lexeme.leaf? : Lexeme → Option (ExpressionForm Expression)
  | .variable name => some (.variable name)
  | .int value => some (.int value)
  | .float value => some (.float value)
  | .string value => some (.string value)
  | _ => none

/-- A lexeme behind `base` that starts an access or a call. -/
def Lexeme.accesses (base : Expression) : Lexeme → Bool
  | .symbol .arrow | .symbol .nullsafeArrow | .symbol .leftBracket => true
  | .symbol .leftParen => base.isCallable
  | .symbol .doubleColon => base.isName
  | _ => false

/-- The arrow in front of a member. -/
def Symbol.memberArrow (nullsafe : Bool) : Symbol :=
  if nullsafe then .nullsafeArrow else .arrow

/-- The signs in front of an operand, with the forms that they make of it. -/
inductive IsSign : Symbol → (Expression → ExpressionForm Expression) → Prop
  | not : IsSign .not .not
  | negate : IsSign .minus .negate

/--
The text from `start` to `stop` makes a phrase, within some levels of nesting.  The rules stand in
the order of the grammar: connectives, operands, primaries, arrow functions, entries, accesses,
holes, tag headers, and elements with their content.
-/
inductive Reads : Nat → Phrase → Cursor → Cursor → Prop
  | expression {level power : Nat} {left whole : Expression} {c start behind d : Cursor} :
      skipTrivia c = ⟨.ok (), start⟩ →
      Reads level (.operand left) c behind →
      Reads level (.continuation start power left whole) behind d →
      Reads (level + 1) (.expression power whole) c d
  | stop {level power : Nat} {left : Expression} {lexeme : Lexeme} {start c behind : Cursor} :
      NextLexeme c lexeme behind →
      (∀ binding, lexeme.binding? = some binding → binding.left < power) →
      Reads level (.continuation start power left left) c c
  | connect {level power : Nat} {left whole : Expression} {form : ExpressionForm Expression}
      {lexeme : Lexeme} {binding : Binding} {start c behind middle d : Cursor} :
      NextLexeme c lexeme behind →
      lexeme.binding? = some binding →
      power ≤ binding.left →
      Reads level (.connection binding left form) behind middle →
      Reads level (.continuation start power ⟨form, start.spanTo middle⟩ whole) middle d →
      Reads level (.continuation start power left whole) c d
  | binary {level : Nat} {operator : BinaryOperator} {power right : Nat}
      {left operand : Expression} {c d : Cursor} :
      Reads level (.expression right operand) c d →
      Reads level (.connection ⟨.binary operator, power, right⟩ left
        (.binary operator left operand)) c d
  | assign {level power right : Nat} {left value : Expression} {c d : Cursor} :
      left.isAssignable = true →
      Reads level (.expression right value) c d →
      Reads level (.connection ⟨.assign, power, right⟩ left (.assign left value)) c d
  | ternary {level power right : Nat} {left ifFalse : Expression} {ifTrue : Option Expression}
      {c middle behind d : Cursor} :
      Reads level (.optional .colon ifTrue) c middle →
      NextLexeme middle (.symbol .colon) behind →
      Reads level (.expression right ifFalse) behind d →
      Reads level (.connection ⟨.ternary, power, right⟩ left (.ternary left ifTrue ifFalse)) c d
  | absent {level : Nat} {kind : Symbol} {c behind : Cursor} :
      NextLexeme c (.symbol kind) behind →
      Reads level (.optional kind none) c c
  | present {level : Nat} {kind : Symbol} {lexeme : Lexeme} {part : Expression}
      {c behind d : Cursor} :
      NextLexeme c lexeme behind →
      lexeme ≠ .symbol kind →
      Reads level (.expression 0 part) c d →
      Reads level (.optional kind (some part)) c d
  | markup {level : Nat} {element : Element Expression} {c start d : Cursor} :
      skipTrivia c = ⟨.ok (), start⟩ →
      startsMarkup start.rest = true →
      Reads level (.element element) start d →
      Reads level (.operand ⟨.markup element, start.spanTo d⟩) c d
  | not {level : Nat} {inner : Expression} {c start behind d : Cursor} :
      skipTrivia c = ⟨.ok (), start⟩ →
      startsMarkup start.rest = false →
      NextLexeme c (.symbol .not) behind →
      Reads level (.expression signPower inner) behind d →
      Reads level (.operand ⟨.not inner, start.spanTo d⟩) c d
  | negate {level : Nat} {inner : Expression} {c start behind d : Cursor} :
      skipTrivia c = ⟨.ok (), start⟩ →
      startsMarkup start.rest = false →
      NextLexeme c (.symbol .minus) behind →
      Reads level (.expression signPower inner) behind d →
      Reads level (.operand ⟨.negate inner, start.spanTo d⟩) c d
  | unsigned {level : Nat} {base whole : Expression} {lexeme : Lexeme}
      {c start after behind d : Cursor} :
      skipTrivia c = ⟨.ok (), start⟩ →
      startsMarkup start.rest = false →
      NextLexeme c lexeme after →
      lexeme ≠ .symbol .not →
      lexeme ≠ .symbol .minus →
      Reads level (.primary base) c behind →
      Reads level (.accesses start base whole) behind d →
      Reads level (.operand whole) c d
  | leaf {level : Nat} {lexeme : Lexeme} {form : ExpressionForm Expression}
      {c start d : Cursor} :
      skipTrivia c = ⟨.ok (), start⟩ →
      NextLexeme c lexeme d →
      lexeme.leaf? = some form →
      Reads level (.primary ⟨form, start.spanTo d⟩) c d
  | name {level : Nat} {text : String} {c start d : Cursor} :
      skipTrivia c = ⟨.ok (), start⟩ →
      NextLexeme c (.word .identifier text) d →
      (sameWord text "array" = true →
        ∃ lexeme behind, NextLexeme d lexeme behind ∧ lexeme ≠ .symbol .leftParen) →
      Reads level (.primary ⟨.bareName text, start.spanTo d⟩) c d
  | arrayCall {level : Nat} {text : String} {items : List (ArrayItem Expression)}
      {c start named behind d : Cursor} :
      skipTrivia c = ⟨.ok (), start⟩ →
      NextLexeme c (.word .identifier text) named →
      sameWord text "array" = true →
      NextLexeme named (.symbol .leftParen) behind →
      Reads level (.entries .rightParen true items) behind d →
      Reads level (.primary ⟨.array items, start.spanTo d⟩) c d
  | array {level : Nat} {items : List (ArrayItem Expression)} {c start behind d : Cursor} :
      skipTrivia c = ⟨.ok (), start⟩ →
      NextLexeme c (.symbol .leftBracket) behind →
      Reads level (.entries .rightBracket true items) behind d →
      Reads level (.primary ⟨.array items, start.spanTo d⟩) c d
  | function {level : Nat} {text : String} {form : ExpressionForm Expression}
      {c start behind d : Cursor} :
      skipTrivia c = ⟨.ok (), start⟩ →
      NextLexeme c (.word .fn text) behind →
      Reads level (.arrowFunction form) behind d →
      Reads level (.primary ⟨form, start.spanTo d⟩) c d
  | parenthesized {level : Nat} {inner : Expression} {c behind middle d : Cursor} :
      NextLexeme c (.symbol .leftParen) behind →
      Reads level (.expression 0 inner) behind middle →
      NextLexeme middle (.symbol .rightParen) d →
      Reads level (.primary inner) c d
  | noParameters {level : Nat} {c d : Cursor} :
      NextLexeme c (.symbol .rightParen) d →
      Reads level (.parameters []) c d
  | lastParameter {level : Nat} {lexeme : Lexeme} {nullable : Bool} {name : String} {span : Span}
      {c after typed named listed d : Cursor} :
      NextLexeme c lexeme after →
      lexeme ≠ .symbol .rightParen →
      MayTake .question c nullable typed →
      MayTakeIdentifier typed named →
      readToken named = ⟨.ok ⟨.variable name, span⟩, listed⟩ →
      MayTake .comma listed false listed →
      NextLexeme listed (.symbol .rightParen) d →
      Reads level (.parameters [⟨name, span⟩]) c d
  | moreParameters {level : Nat} {lexeme : Lexeme} {nullable : Bool} {name : String}
      {span : Span} {list : List Parameter} {c after typed named listed next d : Cursor} :
      NextLexeme c lexeme after →
      lexeme ≠ .symbol .rightParen →
      MayTake .question c nullable typed →
      MayTakeIdentifier typed named →
      readToken named = ⟨.ok ⟨.variable name, span⟩, listed⟩ →
      MayTake .comma listed true next →
      Reads level (.parameters list) next d →
      Reads level (.parameters (⟨name, span⟩ :: list)) c d
  | arrowFunction {level : Nat} {list : List Parameter} {body : Expression}
      {c opened closed arrow d : Cursor} :
      NextLexeme c (.symbol .leftParen) opened →
      Reads level (.parameters list) opened closed →
      NextLexeme closed (.symbol .doubleArrow) arrow →
      Reads level (.expression 0 body) arrow d →
      Reads level (.arrowFunction (.arrowFunction list body)) c d
  | plainEntry {level : Nat} {keyed unpack : Bool} {value : Expression}
      {c start first d : Cursor} :
      skipTrivia c = ⟨.ok (), start⟩ →
      MayTake .ellipsis c unpack first →
      Reads level (.expression 0 value) first d →
      ((keyed && !unpack) = true → MayTake .doubleArrow d false d) →
      Reads level (.entry keyed ⟨none, value, unpack, start.spanTo d⟩) c d
  | keyedEntry {level : Nat} {key value : Expression} {c start arrow behind d : Cursor} :
      skipTrivia c = ⟨.ok (), start⟩ →
      MayTake .ellipsis c false c →
      Reads level (.expression 0 key) c arrow →
      NextLexeme arrow (.symbol .doubleArrow) behind →
      Reads level (.expression 0 value) behind d →
      Reads level (.entry true ⟨some key, value, false, start.spanTo d⟩) c d
  | noEntries {level : Nat} {close : Symbol} {keyed : Bool} {c d : Cursor} :
      NextLexeme c (.symbol close) d →
      Reads level (.entries close keyed []) c d
  | lastEntry {level : Nat} {close : Symbol} {keyed : Bool} {lexeme : Lexeme}
      {item : ArrayItem Expression} {c after listed d : Cursor} :
      NextLexeme c lexeme after →
      lexeme ≠ .symbol close →
      Reads level (.entry keyed item) c listed →
      MayTake .comma listed false listed →
      NextLexeme listed (.symbol close) d →
      Reads level (.entries close keyed [item]) c d
  | moreEntries {level : Nat} {close : Symbol} {keyed : Bool} {lexeme : Lexeme}
      {item : ArrayItem Expression} {items : List (ArrayItem Expression)}
      {c after listed next d : Cursor} :
      NextLexeme c lexeme after →
      lexeme ≠ .symbol close →
      Reads level (.entry keyed item) c listed →
      MayTake .comma listed true next →
      Reads level (.entries close keyed items) next d →
      Reads level (.entries close keyed (item :: items)) c d
  | plainMember {level : Nat} {kind : WordKind} {name : String} {lexeme : Lexeme}
      {c d behind : Cursor} :
      NextLexeme c (.word kind name) d →
      NextLexeme d lexeme behind →
      lexeme ≠ .symbol .leftParen →
      Reads level (.member name none) c d
  | calledMember {level : Nat} {kind : WordKind} {name : String}
      {items : List (ArrayItem Expression)} {c named behind d : Cursor} :
      NextLexeme c (.word kind name) named →
      NextLexeme named (.symbol .leftParen) behind →
      Reads level (.entries .rightParen false items) behind d →
      Reads level (.member name (some (items.map ArrayItem.toArgument))) c d
  | memberAccess {level : Nat} {base : Expression} {nullsafe : Bool} {name : String}
      {arguments : Option (List (Argument Expression))} {c behind d : Cursor} :
      NextLexeme c (.symbol (.memberArrow nullsafe)) behind →
      Reads level (.member name arguments) behind d →
      Reads level (.access base (memberForm base nullsafe (name, arguments))) c d
  | entryAccess {level : Nat} {base : Expression} {index : Option Expression}
      {c behind middle d : Cursor} :
      NextLexeme c (.symbol .leftBracket) behind →
      Reads level (.optional .rightBracket index) behind middle →
      NextLexeme middle (.symbol .rightBracket) d →
      Reads level (.access base (.entry base index)) c d
  | callAccess {level : Nat} {base : Expression} {items : List (ArrayItem Expression)}
      {c behind d : Cursor} :
      NextLexeme c (.symbol .leftParen) behind →
      base.isCallable = true →
      Reads level (.entries .rightParen false items) behind d →
      Reads level (.access base (.call base (items.map ArrayItem.toArgument))) c d
  | staticAccess {level : Nat} {base : Expression} {name : String}
      {arguments : Option (List (Argument Expression))} {c behind d : Cursor} :
      NextLexeme c (.symbol .doubleColon) behind →
      base.isName = true →
      Reads level (.member name arguments) behind d →
      Reads level (.access base (staticMemberForm base (name, arguments))) c d
  | noAccess {level : Nat} {base : Expression} {lexeme : Lexeme} {start c behind : Cursor} :
      NextLexeme c lexeme behind →
      lexeme.accesses base = false →
      Reads level (.accesses start base base.nameAsConstant) c c
  | moreAccesses {level : Nat} {base whole : Expression} {form : ExpressionForm Expression}
      {start c middle d : Cursor} :
      Reads level (.access base form) c middle →
      Reads level (.accesses start ⟨form, start.spanTo middle⟩ whole) middle d →
      Reads level (.accesses start base whole) c d
  | emptyHole {level : Nat} {c d : Cursor} :
      c.skipBlanks.eat? '\x7d' = some d →
      Reads level (.hole none) c d
  | filledHole {level : Nat} {inner : Expression} {c middle d : Cursor} :
      c.skipBlanks.peek? ≠ some '\x7d' →
      Reads level (.expression 0 inner) c.skipBlanks middle →
      middle.skipBlanks.eat? '\x7d' = some d →
      Reads level (.hole (some inner)) c d
  | spread {level : Nat} {inner : Expression} {c behind middle d : Cursor} :
      c.skipBlanks.eatText? "..." = some behind →
      Reads level (.expression 0 inner) behind.skipBlanks middle →
      middle.skipBlanks.eat? '\x7d' = some d →
      Reads level (.spread inner) c d
  | quotedValue {level : Nat} {quote : Char} {c d : Cursor} :
      quote = '"' ∨ quote = '\'' →
      c.peek? = some quote →
      (c.advance.skipWhile (· != quote)).eat? quote = some d →
      Reads level (.attributeValue
        ⟨.string (String.ofList (c.advance.textWhile (· != quote))), c.spanTo d⟩) c d
  | holeValue {level : Nat} {part : Option Expression} {c d : Cursor} :
      c.peek? = some '\x7b' →
      Reads level (.hole part) c.advance d →
      Reads level (.attributeValue (part.getD (HostConstants.nullAt (c.spanTo d)))) c d
  | bareAttribute {level : Nat} {name : List Char} {c d : Cursor} :
      c.textWhile (!isNameDelimiter ·) = name →
      name ≠ [] →
      attributeNameFault? name = none →
      d = c.advanceBy name.length →
      d.skipBlanks.eat? '=' = none →
      Reads level (.attribute
        ⟨String.ofList name, HostConstants.trueAt (c.spanTo d), c.spanTo d⟩) c d
  | valuedAttribute {level : Nat} {name : List Char} {value : Expression}
      {c behind d : Cursor} :
      c.textWhile (!isNameDelimiter ·) = name →
      name ≠ [] →
      attributeNameFault? name = none →
      (c.advanceBy name.length).skipBlanks.eat? '=' = some behind →
      Reads level (.attributeValue value) behind.skipBlanks d →
      Reads level (.attribute ⟨String.ofList name, value, c.spanTo d⟩) c d
  | headerEnd {level : Nat} {c d : Cursor} :
      c.skipBlanks.eat? '>' = some d →
      Reads level (.headerTail ([], .content)) c d
  | selfClosingEnd {level : Nat} {c d : Cursor} :
      c.skipBlanks.eatText? "/>" = some d →
      Reads level (.headerTail ([], .selfClosing)) c d
  | spreadItem {level : Nat} {operand : Expression} {tail : HeaderTail Expression}
      {c behind middle d : Cursor} :
      c.skipBlanks.eat? '\x7b' = some behind →
      Reads level (.spread operand) behind middle →
      Reads level (.headerTail tail) middle d →
      Reads level (.headerTail
        (.cons (.spread ⟨operand, c.skipBlanks.spanTo middle⟩) tail)) c d
  | attributeItem {level : Nat} {item : Attribute Expression} {tail : HeaderTail Expression}
      {c middle d : Cursor} :
      Reads level (.attribute item) c.skipBlanks middle →
      Reads level (.headerTail tail) middle d →
      Reads level (.headerTail (.cons (.named item) tail)) c d
  | fragmentHeader {level : Nat} {c d : Cursor} :
      c.skipBlanks.eat? '>' = some d →
      Reads level (.header ⟨"", [], .content⟩) c d
  | namedHeader {level : Nat} {name : String} {tail : HeaderTail Expression}
      {c named d : Cursor} {reached : c.skipBlanks ≤ named} :
      readTagName c.skipBlanks = .ok ⟨name, named, reached⟩ →
      Reads level (.headerTail tail) named d →
      Reads level (.header ⟨name, tail.1, tail.2⟩) c d
  | selfClosingElement {level : Nat} {header : Header Expression} {c inside d : Cursor} :
      c.eat? '<' = some inside →
      Reads level (.header header) inside d →
      header.ending = .selfClosing →
      Reads (level + 1) (.element
        (.selfClosing header.name header.attributes (c.spanTo d))) c d
  | closedElement {level : Nat} {header : Header Expression} {children : List (Child Expression)}
      {c inside behind d : Cursor} :
      c.eat? '<' = some inside →
      Reads level (.header header) inside behind →
      header.ending = .content →
      Reads level (.content header.name .tag children) behind d →
      Reads (level + 1) (.element
        ⟨header.name, header.attributes, children, some header.name, c.spanTo d⟩) c d
  | comment {level : Nat} {comment : Comment} {c d : Cursor} {reached : c < d} :
      readComment? c = .ok (some ⟨comment, d, reached⟩) →
      Reads level (.braces (.comment comment)) c d
  | hole {level : Nat} {part : Option Expression} {c d : Cursor} :
      readComment? c = .ok none →
      startsSpread c.advance.rest = false →
      Reads level (.hole part) c.advance d →
      Reads level (.braces
        (.hole ⟨part.getD (HostConstants.nullAt (c.spanTo d)), c.spanTo d⟩)) c d
  | closeContent {level length : Nat} {name : String} {left : Boundary} {c d : Cursor}
      {reached : c.advanceBy length < d} :
      ContentMark.next c.rest = (length, .closingTag) →
      readClosingTag (c.advanceBy length) name = .ok ⟨name, d, reached⟩ →
      Reads level (.content name left (literalText c length left .tag)) c d
  | elementChild {level length : Nat} {name : String} {left : Boundary}
      {element : Element Expression} {children : List (Child Expression)}
      {c middle d : Cursor} :
      ContentMark.next c.rest = (length, .openingTag) →
      Reads level (.element element) (c.advanceBy length) middle →
      Reads level (.content name .tag children) middle d →
      Reads level (.content name left
        (literalText c length left .tag ++ .element element :: children)) c d
  | bracesChild {level length : Nat} {name : String} {left : Boundary}
      {child : Child Expression} {children : List (Child Expression)} {c middle d : Cursor} :
      ContentMark.next c.rest = (length, .brace) →
      Reads level (.braces child) (c.advanceBy length) middle →
      Reads level (.content name .hole children) middle d →
      Reads level (.content name left
        (literalText c length left .hole ++ child :: children)) c d

/-- An operand with a sign in front of it. -/
theorem Reads.signed
    {level : Nat}
    {kind : Symbol}
    {form : Expression → ExpressionForm Expression}
    {inner : Expression}
    {c start behind d : Cursor}
    (sign : IsSign kind form)
    (skipped : skipTrivia c = ⟨.ok (), start⟩)
    (plain : startsMarkup start.rest = false)
    (next : NextLexeme c (.symbol kind) behind)
    (operand : Reads level (.expression signPower inner) behind d) :
    Reads level (.operand ⟨form inner, start.spanTo d⟩) c d := by
  cases sign with
  | not => exact .not skipped plain next operand
  | negate => exact .negate skipped plain next operand

/-- More levels do no harm. -/
theorem Reads.mono
    {level more : Nat}
    {phrase : Phrase}
    {start stop : Cursor}
    (reads : Reads level phrase start stop)
    (fits : level ≤ more) :
    Reads more phrase start stop := by
  induction reads generalizing more with
  | expression skipped _ _ operand continuation =>
      obtain ⟨more, rfl⟩ := Nat.exists_eq_add_of_le' (Nat.le_of_add_left_le fits)
      have fits := Nat.le_of_add_le_add_right fits
      exact .expression skipped (operand fits) (continuation fits)
  | selfClosingElement opened _ ending header =>
      obtain ⟨more, rfl⟩ := Nat.exists_eq_add_of_le' (Nat.le_of_add_left_le fits)
      have fits := Nat.le_of_add_le_add_right fits
      exact .selfClosingElement opened (header fits) ending
  | closedElement opened _ ending _ header content =>
      obtain ⟨more, rfl⟩ := Nat.exists_eq_add_of_le' (Nat.le_of_add_left_le fits)
      have fits := Nat.le_of_add_le_add_right fits
      exact .closedElement opened (header fits) ending (content fits)
  | name skipped word alone => exact .name skipped word alone
  | arrayCall skipped word array opened _ entries =>
      exact .arrayCall skipped word array opened (entries fits)
  | array skipped opened _ entries => exact .array skipped opened (entries fits)
  | function skipped word _ arrow => exact .function skipped word (arrow fits)
  | parenthesized opened _ closed inner => exact .parenthesized opened (inner fits) closed
  | _ => constructor <;> solve_by_elim

end EmbeddedMarkup
