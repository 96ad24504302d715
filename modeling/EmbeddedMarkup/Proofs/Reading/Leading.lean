import EmbeddedMarkup.Proofs.Reading.Completeness
import EmbeddedMarkup.Proofs.Reading.Words
import EmbeddedMarkup.Proofs.Tree.Spans

/-!
# Texts of expressions

What a text is read as depends on what follows it, because a connective there may bind more
strongly than those inside.  So a text leads to an expression with a power to the left and a
release to the right: where it is followed by connectives weaker than the release, reading at the
power comes to the expression and goes on behind the text.

There is one lemma for every way to put texts of expressions together.  Trees are compared up to
spans throughout.
-/

namespace EmbeddedMarkup

/-- The text from `start` to `stop` makes a phrase, within as many levels as it takes. -/
def Makes (phrase : Phrase) (start stop : Cursor) : Prop :=
  ∃ level, Reads level phrase start stop

/-- Two phrases are made within the same number of levels. -/
theorem Makes.both
    {first second : Phrase}
    {a b c d : Cursor}
    (makes : Makes first a b)
    (makes' : Makes second c d) :
    ∃ level, Reads level first a b ∧ Reads level second c d := by
  obtain ⟨level, reads⟩ := makes
  obtain ⟨level', reads'⟩ := makes'
  exact ⟨max level level', reads.mono (Nat.le_max_left _ _), reads'.mono (Nat.le_max_right _ _)⟩

/-- The lexeme may start an access or a call. -/
def Lexeme.startsAccess : Lexeme → Bool
  | .symbol .arrow | .symbol .nullsafeArrow | .symbol .leftBracket | .symbol .leftParen
  | .symbol .doubleColon => true
  | _ => false

/-- The lexeme may start an expression. -/
def Lexeme.startsOperand : Lexeme → Bool
  | .int _ | .float _ | .string _ | .variable _ | .word .identifier _ | .word .fn _
  | .symbol .not | .symbol .minus | .symbol .leftParen | .symbol .leftBracket
  | .symbol .less | .symbol .notEqual => true
  | _ => false

/-- The lexeme may start what has neither a sign nor a tag in front of it. -/
def Lexeme.startsPrimary : Lexeme → Bool
  | .int _ | .float _ | .string _ | .variable _ | .word .. | .symbol .leftParen
  | .symbol .leftBracket => true
  | _ => false

theorem Lexeme.accesses_eq_false
    {lexeme : Lexeme}
    (plain : lexeme.startsAccess = false)
    (base : Expression) :
    lexeme.accesses base = false := by
  unfold startsAccess at plain
  unfold accesses
  split at plain <;> simp_all

/-- Connectives bind more weakly than signs. -/
theorem Lexeme.left_lt_signPower
    {lexeme : Lexeme}
    {binding : Binding}
    (connects : lexeme.binding? = some binding) :
    binding.left < signPower := by
  unfold Lexeme.binding? at connects
  split at connects
  · rename_i kind
    cases kind <;> cases connects <;> decide
  · rename_i kind _
    cases kind <;> cases connects <;> decide
  · cases connects

/--
What is ahead leaves an expression alone: it is separated from it, starts no access, and connects
with less than `release`, if at all.
-/
structure Released (release : Nat) (d : Cursor) : Prop where
  separated : Separated d.rest
  ahead : ∃ lexeme behind, NextLexeme d lexeme behind ∧ lexeme.startsAccess = false ∧
    ∀ binding, lexeme.binding? = some binding → binding.left < release

variable {text more word : List Char} {expression left right : Expression}
  {power release weaker : Nat} {c d : Cursor} {lexeme : Lexeme}

theorem Released.mono (released : Released weaker d) (fits : weaker ≤ release) :
    Released release d := by
  obtain ⟨separated, lexeme, behind, next, plain, weak⟩ := released
  exact ⟨separated, lexeme, behind, next, plain,
    fun binding connects => Nat.lt_of_lt_of_le (weak binding connects) fits⟩

/-- Behind what was released there is nothing to connect with. -/
theorem Released.stop
    {start : Cursor}
    (released : Released power d) :
    Makes (.continuation start power left left) d d := by
  obtain ⟨_, lexeme, behind, next, -, weak⟩ := released
  exact ⟨0, .stop next weak⟩

theorem Released.noAccess
    {start : Cursor}
    (released : Released release d) :
    Makes (.accesses start left left.nameAsConstant) d d := by
  obtain ⟨_, lexeme, behind, next, plain, -⟩ := released
  exact ⟨0, .noAccess next (Lexeme.accesses_eq_false plain left)⟩

/-- The text is an operand, up to spans, whatever connects it. -/
structure IsOperand (text : List Char) (expression : Expression) : Prop where
  visible : Visible text
  reads : ∀ ⦃c d⦄, Stands text c d → Released signPower d →
    skipTrivia c = ⟨.ok (), c.skipBlanks⟩ ∧
      ∃ read, read.withoutSpans = expression.withoutSpans ∧ Makes (.operand read) c d

/-- The text leads to an expression, up to spans, at a power and up to a release. -/
structure Leads (power release : Nat) (text : List Char) (expression : Expression) : Prop where
  visible : Visible text
  reads : ∀ ⦃c d⦄, Stands text c d → Released release d →
    skipTrivia c = ⟨.ok (), c.skipBlanks⟩ ∧
      ∃ read, read.withoutSpans = expression.withoutSpans ∧
        ∀ ⦃whole stop⦄, Makes (.continuation c.skipBlanks power read whole) d stop →
          Makes (.expression power whole) c stop

/-- An operand and what continues it are an expression. -/
theorem Makes.continued
    {start stop : Cursor}
    (operand : Makes (.operand left) c d)
    (continuation : Makes (.continuation start power left right) d stop)
    (skipped : skipTrivia c = ⟨.ok (), start⟩) :
    Makes (.expression power right) c stop := by
  obtain ⟨level, reads, continues⟩ := operand.both continuation
  exact ⟨level + 1, .expression skipped reads continues⟩

/-- An operand leads to itself at every power. -/
theorem IsOperand.leads (operand : IsOperand text expression) :
    Leads power signPower text expression := by
  refine ⟨operand.visible, ?_⟩
  intro c d stands released
  obtain ⟨skipped, read, same, makes⟩ := operand.reads stands released
  exact ⟨skipped, read, same, fun _ _ continuation => makes.continued continuation skipped⟩

theorem Leads.mono (leads : Leads power release text expression) (fits : weaker ≤ release) :
    Leads power weaker text expression :=
  ⟨leads.visible, fun _ _ stands released => leads.reads stands (released.mono fits)⟩

/-- Where the power also stops what follows, the text is an expression. -/
theorem Leads.makes
    (leads : Leads power release text expression)
    (stands : Stands text c d)
    (stops : Released power d)
    (released : Released release d) :
    ∃ read, read.withoutSpans = expression.withoutSpans ∧
      Makes (.expression power read) c d := by
  obtain ⟨-, read, same, continues⟩ := leads.reads stands released
  exact ⟨read, same, continues stops.stop⟩

section Starts

variable {start : Cursor}

theorem LexemeReading.ofChars_less
    {rest : List Char}
    (unequal : rest.head? ≠ some '=')
    (unmatched : rest.head? ≠ some '>') :
    LexemeReading.ofChars ('<' :: rest) = .found (.symbol .less) 1 := by
  cases rest with
  | nil => rfl
  | cons ch rest =>
      simp only [List.head?_cons, ne_eq, Option.some.injEq] at unequal unmatched
      have read : LexemeReading.ofChars ('<' :: ch :: rest) =
          LexemeReading.symbol '<' (ch :: rest) := rfl
      have equal : ('=' == ch) = false := beq_eq_false_iff_ne.mpr (Ne.symm unequal)
      have greater : ('>' == ch) = false := beq_eq_false_iff_ne.mpr (Ne.symm unmatched)
      rw [read]
      simp [LexemeReading.symbol, symbolSpellings, List.find?, List.isPrefixOf, equal, greater]

/-- Where trivia end, the next lexeme is read. -/
theorem nextLexeme_of_skipTrivia
    {length : Nat}
    (skipped : skipTrivia c = ⟨.ok (), start⟩)
    (read : LexemeReading.ofChars start.rest = .found lexeme length) :
    NextLexeme c lexeme (start.advanceBy length) := by
  refine ⟨start.spanTo (start.advanceBy length), ?_⟩
  simp only [readToken, skipped, tokenAt, read, LexemeReading.found]

/-- Where markup starts, a comparison would be the next lexeme. -/
theorem nextLexeme_of_startsMarkup
    (skipped : skipTrivia c = ⟨.ok (), start⟩)
    (markup : startsMarkup start.rest = true) :
    ∃ lexeme behind, NextLexeme c lexeme behind ∧
      (lexeme = .symbol .less ∨ lexeme = .symbol .notEqual) ∧ behind ≤ start.advanceBy 2 := by
  unfold startsMarkup at markup
  split at markup
  · rename_i rest ahead
    by_cases matched : rest.head? = some '>'
    · obtain ⟨more, rfl⟩ := List.head?_eq_some_iff.mp matched
      have read : LexemeReading.ofChars start.rest = .found (.symbol .notEqual) 2 := by
        rw [ahead]
        rfl
      exact ⟨_, _, nextLexeme_of_skipTrivia skipped read, .inr rfl, Cursor.le_refl _⟩
    · have unequal : rest.head? ≠ some '=' := by
        intro equal
        obtain ⟨more, rfl⟩ := List.head?_eq_some_iff.mp equal
        have visible : isBlank '=' = false := rfl
        rw [List.dropWhile_cons_of_neg (by simp [visible])] at markup
        cases markup
      have read : LexemeReading.ofChars start.rest = .found (.symbol .less) 1 := by
        rw [ahead]
        exact LexemeReading.ofChars_less unequal matched
      exact ⟨_, _, nextLexeme_of_skipTrivia skipped read, .inl rfl, start.advance.le_advance⟩
  · cases markup

/-- Where one of the other lexemes is next, no markup starts. -/
theorem startsMarkup_eq_false
    (skipped : skipTrivia c = ⟨.ok (), start⟩)
    (next : NextLexeme c lexeme d)
    (other : lexeme ≠ .symbol .less ∧ lexeme ≠ .symbol .notEqual) :
    startsMarkup start.rest = false := by
  cases markup : startsMarkup start.rest with
  | false => rfl
  | true =>
      obtain ⟨found, behind, next', isLess, -⟩ := nextLexeme_of_startsMarkup skipped markup
      obtain ⟨rfl, -⟩ := next.unique next'
      rcases isLess with rfl | rfl
      · exact absurd rfl other.1
      · exact absurd rfl other.2

/-- A primary starts like an operand. -/
theorem exists_nextLexeme_of_primary
    {level : Nat}
    (reads : Reads level (.primary expression) c d) :
    ∃ lexeme behind, NextLexeme c lexeme behind ∧ lexeme.startsOperand = true := by
  cases reads with
  | leaf _ next leaf =>
      refine ⟨_, _, next, ?_⟩
      unfold Lexeme.leaf? at leaf
      split at leaf <;> first | rfl | cases leaf
  | name _ next _ => exact ⟨_, _, next, rfl⟩
  | arrayCall _ next _ _ _ => exact ⟨_, _, next, rfl⟩
  | array _ next _ => exact ⟨_, _, next, rfl⟩
  | function _ next _ => exact ⟨_, _, next, rfl⟩
  | parenthesized next _ _ => exact ⟨_, _, next, rfl⟩

/-- An expression starts like an operand. -/
theorem Makes.exists_nextLexeme
    (makes : Makes (.expression power expression) c d) :
    ∃ lexeme behind, NextLexeme c lexeme behind ∧ lexeme.startsOperand = true := by
  obtain ⟨level, reads⟩ := makes
  cases reads with
  | expression _ operand _ =>
      cases operand with
      | markup skipped starts _ =>
          obtain ⟨lexeme, behind, next, isLess, -⟩ := nextLexeme_of_startsMarkup skipped starts
          refine ⟨lexeme, behind, next, ?_⟩
          rcases isLess with rfl | rfl <;> rfl
      | not _ _ next _ => exact ⟨_, _, next, rfl⟩
      | negate _ _ next _ => exact ⟨_, _, next, rfl⟩
      | unsigned _ _ _ _ _ primary _ => exact exists_nextLexeme_of_primary primary

end Starts

section Operands

variable {start middle after : Cursor} {admits : Lexeme → Prop}

/-- A primary and what is done to it are an operand. -/
theorem Makes.operand
    (primary : Makes (.primary left) c middle)
    (accesses : Makes (.accesses start left right) middle d)
    (skipped : skipTrivia c = ⟨.ok (), start⟩)
    (next : NextLexeme c lexeme after)
    (plain : lexeme.startsPrimary = true) :
    Makes (.operand right) c d := by
  have other : lexeme ≠ .symbol .less ∧ lexeme ≠ .symbol .notEqual ∧
      lexeme ≠ .symbol .not ∧ lexeme ≠ .symbol .minus := by
    refine ⟨?_, ?_, ?_, ?_⟩ <;> rintro rfl <;> cases plain
  obtain ⟨level, reads, reads'⟩ := primary.both accesses
  exact ⟨level, .unsigned skipped (startsMarkup_eq_false skipped next ⟨other.1, other.2.1⟩) next
    other.2.2.1 other.2.2.2 reads reads'⟩

/-- The text is a primary, up to spans, where the lexeme behind it is admitted. -/
structure IsPrimary (admits : Lexeme → Prop) (text : List Char) (base : Expression) : Prop where
  visible : Visible text
  reads : ∀ ⦃c d behind lexeme⦄, Stands text c d → Separated d.rest →
    NextLexeme d lexeme behind → admits lexeme →
    skipTrivia c = ⟨.ok (), c.skipBlanks⟩ ∧
      (∃ first after, NextLexeme c first after ∧ first.startsPrimary = true) ∧
      ∃ read, read.withoutSpans = base.withoutSpans ∧ Makes (.primary read) c d

/-- A primary is an operand; a bare name becomes a constant. -/
theorem IsPrimary.isOperand
    (primary : IsPrimary admits text expression)
    (alone : ∀ lexeme : Lexeme, lexeme.startsAccess = false → admits lexeme) :
    IsOperand text expression.nameAsConstant := by
  refine ⟨primary.visible, ?_⟩
  intro c d stands released
  obtain ⟨separated, lexeme, behind, next, plain, -⟩ := id released
  obtain ⟨skipped, ⟨first, after, starts, startsPrimary⟩, read, same, makes⟩ :=
    primary.reads stands separated next (alone lexeme plain)
  exact ⟨skipped, read.nameAsConstant, by simp [same],
    makes.operand released.noAccess skipped starts startsPrimary⟩

/-- A lexeme that is an expression alone is a primary. -/
theorem Spells.isPrimary
    {form : ExpressionForm Expression}
    {span : Span}
    (spells : Spells word lexeme)
    (leaf : lexeme.leaf? = some form) :
    IsPrimary (fun _ => True) word ⟨form, span⟩ := by
  refine ⟨spells.isVisible, ?_⟩
  intro c d _ _ stands separated _ _
  have skipped := spells.skipTrivia stands separated
  have next := spells.nextLexeme stands separated
  have starts : lexeme.startsPrimary = true := by
    unfold Lexeme.leaf? at leaf
    split at leaf <;> first | rfl | cases leaf
  exact ⟨skipped, ⟨lexeme, d, next, starts⟩, ⟨form, c.skipBlanks.spanTo d⟩, by simp, 0,
    .leaf skipped next leaf⟩

/-- A lexeme that is an expression alone is an operand. -/
theorem Spells.isOperand
    {form : ExpressionForm Expression}
    {span : Span}
    (spells : Spells word lexeme)
    (leaf : lexeme.leaf? = some form) :
    IsOperand word ⟨form, span⟩ := by
  have proper : Expression.isName ⟨form, span⟩ = false := by
    unfold Lexeme.leaf? at leaf
    split at leaf <;> cases leaf <;> rfl
  rw [← Expression.nameAsConstant_of_isName_eq_false proper]
  exact (spells.isPrimary leaf).isOperand fun _ _ => trivial

/-- A name is a primary, but the name `array` in front of a parenthesis is not. -/
theorem Spells.isPrimary_name
    {name : String}
    {span : Span}
    (spells : Spells name.toList (.word .identifier name)) :
    IsPrimary (fun lexeme => sameWord name "array" = true → lexeme ≠ .symbol .leftParen)
      name.toList ⟨.bareName name, span⟩ := by
  refine ⟨spells.isVisible, ?_⟩
  intro c d behind lexeme stands separated ahead admits
  have skipped := spells.skipTrivia stands separated
  have next := spells.nextLexeme stands separated
  exact ⟨skipped, ⟨_, d, next, rfl⟩, ⟨.bareName name, c.skipBlanks.spanTo d⟩, by simp, 0,
    .name skipped next fun array => ⟨lexeme, behind, ahead, admits array⟩⟩

/-- A name in parentheses, or alone, is a constant. -/
theorem Spells.isOperand_name
    {name : String}
    {span : Span}
    (spells : Spells name.toList (.word .identifier name)) :
    IsOperand name.toList ⟨.constant name, span⟩ := by
  refine (@Spells.isPrimary_name name span spells).isOperand ?_
  rintro lexeme plain _ rfl
  cases plain

/-- Nothing is connected in front of a symbol that is no connective. -/
theorem Spells.released
    (spells : Spells word lexeme)
    (stands : Stands word c d)
    (separated : Separated c.rest)
    (separated' : Separated d.rest)
    (plain : lexeme.startsAccess = false)
    (weak : ∀ binding, lexeme.binding? = some binding → binding.left < release) :
    Released release c :=
  ⟨separated, lexeme, d, spells.nextLexeme stands separated', plain, weak⟩

/-- What a test says that does not see spans is the same for expressions that differ in spans. -/
theorem Expression.eq_of_withoutSpans
    {test : Expression → Bool}
    {first second : Expression}
    (blind : ∀ expression : Expression, test expression.withoutSpans = test expression)
    (same : first.withoutSpans = second.withoutSpans) :
    test first = test second := by
  rw [← blind first, same, blind]

/-- An expression in parentheses is a primary. -/
theorem Leads.isPrimary
    (leads : Leads 0 0 text expression) :
    IsPrimary (fun _ => True) (spaced [Symbol.leftParen.text, text, Symbol.rightParen.text])
      expression := by
  refine ⟨(spells_symbol .leftParen).isVisible.spaced, ?_⟩
  intro c d _ _ stands behind _ _
  obtain ⟨opened, open_stands, separated, stands⟩ := stands.split
  obtain ⟨closed, stands, separated', close_stands⟩ := stands.split
  have skipped := (spells_symbol .leftParen).skipTrivia open_stands separated
  have opens := (spells_symbol .leftParen).nextLexeme open_stands separated
  have closes := (spells_symbol .rightParen).nextLexeme close_stands behind
  have ends : Released 0 closed :=
    (spells_symbol .rightParen).released close_stands separated' behind rfl
      (fun _ none => nomatch none)
  obtain ⟨read, same, level, reads⟩ := leads.makes stands ends ends
  exact ⟨skipped, ⟨_, opened, opens, rfl⟩, read, same, level, .parenthesized opens reads closes⟩

/-- An expression in parentheses is an operand. -/
theorem Leads.parenthesized
    (leads : Leads 0 0 text expression)
    (proper : expression.isName = false) :
    IsOperand (spaced [Symbol.leftParen.text, text, Symbol.rightParen.text]) expression := by
  rw [← Expression.nameAsConstant_of_isName_eq_false proper]
  exact leads.isPrimary.isOperand fun _ _ => trivial

/-- An operand with a sign in front of it is an operand. -/
theorem Leads.signed
    {kind : Symbol}
    {form : Expression → ExpressionForm Expression}
    {span : Span}
    (leads : Leads signPower signPower text expression)
    (sign : IsSign kind form) :
    IsOperand (spaced [kind.text, text]) ⟨form expression, span⟩ := by
  refine ⟨(spells_symbol kind).isVisible.spaced, ?_⟩
  intro c d stands released
  obtain ⟨behind, spelled, separated, stands⟩ := stands.split
  have skipped := (spells_symbol kind).skipTrivia spelled separated
  have next := (spells_symbol kind).nextLexeme spelled separated
  have plain : startsMarkup c.skipBlanks.rest = false :=
    startsMarkup_eq_false skipped next (by cases sign <;> simp)
  obtain ⟨read, same, level, reads⟩ := leads.makes stands released released
  exact ⟨skipped, ⟨form read, c.skipBlanks.spanTo d⟩, by cases sign <;> simp [same], level,
    .signed sign skipped plain next reads⟩

end Operands

section Connectives

variable {binding : Binding} {strength : Nat} {span : Span}

/-- No connective starts an access. -/
theorem Lexeme.startsAccess_eq_false_of_binding?
    (connects : lexeme.binding? = some binding) :
    lexeme.startsAccess = false := by
  unfold startsAccess
  split <;> first | rfl | cases connects

/-- A connective goes on behind a text that leads to its left side. -/
theorem Leads.connect
    {texts : List (List Char)}
    {form : ExpressionForm Expression}
    (leads : Leads power strength text left)
    (spells : Spells word lexeme)
    (connects : lexeme.binding? = some binding)
    (takes : power ≤ binding.left)
    (held : binding.left < strength)
    (connected : ∀ ⦃c d operand⦄, operand.withoutSpans = left.withoutSpans →
      Stands (spaced (more :: texts)) c d → Released release d →
      ∃ read, read.withoutSpans = form.withoutSpans ∧
        Makes (.connection binding operand read) c d) :
    Leads power release (spaced (text :: word :: more :: texts)) ⟨form, span⟩ := by
  refine ⟨leads.visible.spaced, ?_⟩
  intro c d stands released
  obtain ⟨middle, stands, separated, stands'⟩ := stands.split
  obtain ⟨behind, connective, separated', stands'⟩ := stands'.split
  have next := spells.nextLexeme connective separated'
  have weak : ∀ found, lexeme.binding? = some found → found.left < strength := by
    intro found connects'
    rw [connects] at connects'
    cases connects'
    exact held
  have plain := Lexeme.startsAccess_eq_false_of_binding? connects
  obtain ⟨skipped, operand, same, continues⟩ :=
    leads.reads stands (spells.released connective separated separated' plain weak)
  obtain ⟨read, same', connection⟩ := connected same stands' released
  refine ⟨skipped, ⟨read, c.skipBlanks.spanTo d⟩, by simp [same'], ?_⟩
  intro whole stop continuation
  obtain ⟨level, reads, reads'⟩ := connection.both continuation
  exact continues ⟨level, .connect next connects takes reads reads'⟩

/-- Two operands with an operator between them. -/
theorem Leads.binary
    {operator : BinaryOperator}
    {before behind : Nat}
    (leads : Leads power strength text left)
    (spells : Spells word lexeme)
    (connects : lexeme.binding? = some ⟨.binary operator, before, behind⟩)
    (takes : power ≤ before)
    (held : before < strength)
    (leads' : Leads behind release more right)
    (fits : release ≤ behind) :
    Leads power release (spaced [text, word, more]) ⟨.binary operator left right, span⟩ := by
  refine leads.connect spells connects takes held ?_
  intro c d operand same stands released
  obtain ⟨read, same', level, reads⟩ := leads'.makes stands (released.mono fits) released
  exact ⟨.binary operator operand read, by simp [same, same'], level, .binary reads⟩

/-- A value is assigned to what it can be assigned to. -/
theorem Leads.assign
    {before behind : Nat}
    (leads : Leads power strength text left)
    (assignable : left.isAssignable = true)
    (spells : Spells word lexeme)
    (connects : lexeme.binding? = some ⟨.assign, before, behind⟩)
    (takes : power ≤ before)
    (held : before < strength)
    (leads' : Leads behind release more right)
    (fits : release ≤ behind) :
    Leads power release (spaced [text, word, more]) ⟨.assign left right, span⟩ := by
  refine leads.connect spells connects takes held ?_
  intro c d operand same stands released
  obtain ⟨read, same', level, reads⟩ := leads'.makes stands (released.mono fits) released
  have isAssignable : operand.isAssignable = true :=
    (Expression.eq_of_withoutSpans Expression.isAssignable_withoutSpans same).trans assignable
  exact ⟨.assign operand read, by simp [same, same'], level, .assign isAssignable reads⟩

/-- Nothing is connected in front of a colon. -/
theorem released_colon
    (stands : Stands Symbol.colon.text c d)
    (separated : Separated c.rest)
    (separated' : Separated d.rest) :
    Released release c :=
  (spells_symbol .colon).released stands separated separated' rfl (fun _ none => nomatch none)

/-- A choice without a middle part. -/
theorem Leads.shortTernary
    {before behind : Nat}
    (leads : Leads power strength text left)
    (spells : Spells word lexeme)
    (connects : lexeme.binding? = some ⟨.ternary, before, behind⟩)
    (takes : power ≤ before)
    (held : before < strength)
    (leads' : Leads behind release more right)
    (fits : release ≤ behind) :
    Leads power release (spaced [text, word, Symbol.colon.text, more])
      ⟨.ternary left none right, span⟩ := by
  refine leads.connect spells connects takes held ?_
  intro c d operand same stands released
  obtain ⟨middle, colon, separated, stands⟩ := stands.split
  have next := (spells_symbol .colon).nextLexeme colon separated
  obtain ⟨read, same', level, reads⟩ := leads'.makes stands (released.mono fits) released
  exact ⟨.ternary operand none read, by simp [same, same'], level,
    .ternary (.absent next) next reads⟩

/-- A choice between two alternatives. -/
theorem Leads.ternary
    {inner : List Char}
    {middle : Expression}
    {before behind : Nat}
    (leads : Leads power strength text left)
    (spells : Spells word lexeme)
    (connects : lexeme.binding? = some ⟨.ternary, before, behind⟩)
    (takes : power ≤ before)
    (held : before < strength)
    (alternative : Leads 0 0 inner middle)
    (leads' : Leads behind release more right)
    (fits : release ≤ behind) :
    Leads power release (spaced [text, word, inner, Symbol.colon.text, more])
      ⟨.ternary left (some middle) right, span⟩ := by
  refine leads.connect spells connects takes held ?_
  intro c d operand same stands released
  obtain ⟨ended, stands', separated, stands⟩ := stands.split
  obtain ⟨colon, colon_stands, separated', stands⟩ := stands.split
  have next := (spells_symbol .colon).nextLexeme colon_stands separated'
  have ends := @released_colon 0 _ _ colon_stands separated separated'
  obtain ⟨read, same', makes⟩ := alternative.makes stands' ends ends
  obtain ⟨first, _, ahead, starts⟩ := makes.exists_nextLexeme
  have present : first ≠ .symbol .colon := by
    rintro rfl
    cases starts
  obtain ⟨read', same'', makes'⟩ := leads'.makes stands (released.mono fits) released
  obtain ⟨level, reads, reads'⟩ := makes.both makes'
  exact ⟨.ternary operand (some read) read', by simp [same, same', same''], level,
    .ternary (.present ahead present reads) next reads'⟩

end Connectives

/-- Where nothing is left, the end of the input is the next lexeme. -/
theorem nextLexeme_endOfInput (ended : d.rest = []) : NextLexeme d .endOfInput d := by
  have still : d.skipBlanks = d := by
    apply Cursor.skipBlanks_eq_self
    intro next ahead
    rw [Cursor.peek?, ended] at ahead
    cases ahead
  have skipped : skipTrivia d = ⟨.ok (), d⟩ := by
    rw [skipTrivia_eq_skipBlanks, still]
    rw [still, ended]
    rfl
  have read : LexemeReading.ofChars d.rest = .found .endOfInput 0 := by
    rw [ended]
    rfl
  exact nextLexeme_of_skipTrivia skipped read

/-- At the end of a text nothing is connected. -/
theorem released_of_rest_eq_nil (ended : d.rest = []) : Released release d := by
  refine ⟨?_, .endOfInput, d, nextLexeme_endOfInput ended, rfl, fun _ none => nomatch none⟩
  rw [ended]
  exact separated_nil

/-- A text that leads to an expression consists of it. -/
theorem Leads.ofText_eq_ok
    (leads : Leads 0 0 text expression) :
    ∃ read least, read.withoutSpans = expression.withoutSpans ∧
      ∀ budget, least ≤ budget → Expression.ofText (String.ofList text) budget = .ok read := by
  have ahead : (Cursor.ofText (String.ofList text)).rest = text ++ [] := by
    simp [Cursor.ofText]
  have passes := Cursor.passes_advanceBy ahead
  have ended := Cursor.rest_advanceBy_length ahead
  have released := @released_of_rest_eq_nil 0 _ ended
  obtain ⟨read, same, least, reads⟩ := leads.makes (stands_of_passes passes) released released
  exact ⟨read, least, same, fun budget fits =>
    reads.ofText_eq_ok (nextLexeme_endOfInput ended) fits⟩

end EmbeddedMarkup
