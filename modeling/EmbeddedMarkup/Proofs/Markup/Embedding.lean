import EmbeddedMarkup.Proofs.Markup.Lookahead
import EmbeddedMarkup.Proofs.Reading.Alone

/-!
# Expressions in holes

A text that consists of an expression may stand in a hole, with a line end behind it for the case
that a line comment ends it.  In the hole it is read as the same expression up to spans, whichever
hole it is: a child, the value of an attribute or a spread.

What follows the expression matters, however.  A text may end with blank space and comments, and so
may anything in parentheses; but between an expression and the brace that closes its hole only blank
space is skipped.
-/

namespace EmbeddedMarkup

open Cursor

variable {level budget : Nat} {text : String} {more : List Char} {c d first start stop inside middle
  after behind : Cursor} {whole : Expression} {tree : Element Expression}

/-! ## Trivia around an expression -/

section Trivia

/-- Behind blank space the same trivia are skipped. -/
theorem skipTrivia_skipBlanks (skipped : skipTrivia c = ⟨.ok (), first⟩) :
    skipTrivia c.skipBlanks = ⟨.ok (), first⟩ := by
  cases found : CommentReading.ofChars c.skipBlanks.rest with
  | absent =>
      rw [skipTrivia_eq_skipBlanks found] at skipped
      rw [skipTrivia_eq_skipBlanks (by rwa [skipBlanks_skipBlanks]), skipBlanks_skipBlanks, skipped]
  | comment length =>
      rw [skipTrivia_comment found] at skipped
      rw [skipTrivia_comment (by rwa [skipBlanks_skipBlanks]), skipBlanks_skipBlanks, skipped]
  | unterminated =>
      rw [skipTrivia] at skipped
      split at skipped <;> rename_i found' <;> rw [found] at found' <;> cases found'
      cases skipped

/-- Blank space that ends inside a text ends there whatever follows the text. -/
theorem rest_skipBlanks_append
    (visible : c.skipBlanks.rest ≠ [])
    (ahead : d.rest = c.rest ++ more) :
    d.skipBlanks.rest = c.skipBlanks.rest ++ more := by
  rw [rest_skipBlanks] at visible ⊢
  rw [rest_skipBlanks, ahead, List.dropWhile_append, if_neg (by simpa using visible)]

/-- Where only trivia are left of a text, a closing brace on the next line comes next. -/
theorem exists_nextLexeme_rightBrace
    (skipped : skipTrivia c = ⟨.ok (), first⟩)
    (ended : first.rest = [])
    (ahead : d.rest = c.rest ++ '\n' :: '\x7d' :: more) :
    ∃ brace, NextLexeme d (.symbol .rightBrace) brace := by
  fun_induction skipTrivia c generalizing d with
  | case1 c absent =>
      cases skipped
      rw [rest_skipBlanks] at ended
      have closes : d.skipBlanks.peek? = some '\x7d' := by
        rw [peek?, rest_skipBlanks, ahead, List.dropWhile_append, ended]
        rfl
      exact ⟨_, nextLexeme_of_brace closes⟩
  | case2 c length found ih =>
      have ahead' := rest_skipBlanks_append (CommentReading.length_pos found).2 ahead
      have found' : CommentReading.ofChars d.skipBlanks.rest = .comment length := by
        rw [ahead']
        exact CommentReading.ofChars_line found (by simp)
      have behind : (d.skipBlanks.advanceBy length).rest =
          (c.skipBlanks.advanceBy length).rest ++ '\n' :: '\x7d' :: more := by
        rw [rest_advanceBy, rest_advanceBy, ahead',
          List.drop_append_of_le_length (CommentReading.length_le found)]
      obtain ⟨brace, next⟩ := ih skipped behind
      obtain ⟨closes, skipped'⟩ := next.skipTrivia
      exact ⟨brace, next.of_skipTrivia skipped' ((skipTrivia_comment found').trans skipped')⟩
  | case3 => cases skipped

/-- Only trivia are left in front of the end of the input. -/
theorem exists_skipTrivia_of_endOfInput (ended : NextLexeme c .endOfInput behind) :
    ∃ first, skipTrivia c = ⟨.ok (), first⟩ ∧ first.rest = [] := by
  obtain ⟨span, read⟩ := ended
  obtain ⟨first, length, skipped, found, -⟩ := readToken_eq_ok_iff.mp read
  refine ⟨first, skipped, ?_⟩
  cases rest : first.rest with
  | nil => rfl
  | cons ch more =>
      rw [rest, LexemeReading.ofChars] at found
      cases startsLexeme_of_startingWith found with
      | number isNumber _ _ => cases isNumber

theorem nextLexeme_endOfInput_of_skipTrivia
    (skipped : skipTrivia c = ⟨.ok (), first⟩)
    (ended : first.rest = []) :
    NextLexeme c .endOfInput first := by
  have read : LexemeReading.ofChars first.rest = .found .endOfInput 0 := by
    rw [ended]
    rfl
  exact nextLexeme_of_skipTrivia skipped read

/-- If the brace behind a text closes a hole, then blank space is left of the text at most. -/
theorem blank_of_closes
    (ended : NextLexeme c .endOfInput behind)
    (ahead : d.rest = c.rest ++ '\n' :: '\x7d' :: more)
    (closes : d.skipBlanks.eat? '\x7d' = some after) :
    Blank c.rest := by
  by_contra words
  have visible : c.skipBlanks.rest ≠ [] := by
    intro none_left
    apply words
    rw [← textTo_append_rest c.le_skipBlanks, none_left, List.append_nil]
    exact blank_textTo_skipBlanks c
  have there := rest_skipBlanks_append visible ahead
  have brace := (eat?_eq_some_iff.mp closes).1
  rw [peek?, there, List.head?_append_of_ne_nil _ visible] at brace
  cases (ended.unique (nextLexeme_of_brace brace)).1

/-- Behind blank space, and behind the line end, the brace closes the hole. -/
theorem exists_closes_of_blank
    (blank : Blank c.rest)
    (ahead : d.rest = c.rest ++ '\n' :: '\x7d' :: more) :
    ∃ after, d.skipBlanks.eat? '\x7d' = some after ∧ after.rest = more := by
  have ahead' : d.rest = (c.rest ++ ['\n']) ++ '\x7d' :: more := by
    rw [ahead, List.append_assoc]
    rfl
  have blank' : Blank (c.rest ++ ['\n']) := blank_append.mpr ⟨blank, by simp [Blank, isBlank]⟩
  have rest := rest_advanceBy_length ahead'
  have brace := peek?_eq_some_iff.mpr ⟨more, rest⟩
  have skipped := (passes_advanceBy ahead').skipBlanks blank' brace rfl
  refine ⟨_, eat?_of_peek? (by rwa [skipped]), ?_⟩
  rw [skipped, rest_advance, rest]
  rfl

end Trivia

/-! ## The same expression in front of a brace -/

section Expressions

/-- What an expression makes of a whole text it makes in front of a brace on the next line. -/
theorem Reads.enclosed
    (reads : Reads level (.expression 0 whole) (.ofText text) stop)
    (ended : NextLexeme stop .endOfInput behind)
    (place : 0 < c.position.column)
    (ahead : c.rest = text.toList ++ '\n' :: '\x7d' :: more) :
    ∃ middle, middle.rest = stop.rest ++ '\n' :: '\x7d' :: more ∧
      Reads level
        (.expression 0 (whole.respan
          (Span.moved (ofText text).skipBlanks.position c.skipBlanks.position)))
        c.skipBlanks middle := by
  obtain ⟨lexeme, _, next, -⟩ := Makes.exists_nextLexeme ⟨level, reads⟩
  obtain ⟨first, skipped⟩ := next.skipTrivia
  have inner := reads.expression_of_skipTrivia skipped (skipTrivia_skipBlanks skipped)
  have stops := inner.stopsVisibly rfl
  obtain ⟨ch, behind, opens⟩ := exists_cons_of_lt stops.lt
  have opens' : (ofText text).skipBlanks.peek? = some ch := peek?_eq_some_iff.mpr ⟨behind, opens⟩
  have spelled := textTo_append_rest inner.le
  have there := rest_skipBlanks_append (by rw [opens]; exact List.cons_ne_nil _ _) ahead
  have copied : (ofText text).skipBlanks.Copied stop c.skipBlanks := {
    le := inner.le
    ahead := by
      rw [there, ← spelled, List.append_assoc]
      exact List.prefix_append _ _
    opens := ⟨ch, opens', fails_of_peek?_skipWhile opens'⟩
    closes := stops
    column_pos := column_pos_ofText (le_skipBlanks _)
    column_pos' := column_pos_of_le place c.le_skipBlanks }
  have left := copied.rest_copy (Cursor.le_refl _) inner.le
  rw [copy_self, there, ← spelled, List.append_assoc, List.append_cancel_left_eq] at left
  obtain ⟨last, trivia, empty⟩ := exists_skipTrivia_of_endOfInput ended
  obtain ⟨brace, closes⟩ := exists_nextLexeme_rightBrace trivia empty left.symm
  have again := inner.copies copied (Cursor.le_refl _) (.inr ⟨rfl, .enclosed left.symm closes⟩)
  rw [copy_self] at again
  exact ⟨_, left.symm, again⟩

/-- A block comment in front of a token ends, and the trivia go on behind it. -/
theorem exists_blockCommentTail?_of_skipTrivia
    (starts : c.skipBlanks.startsWith "/*" = true)
    (skipped : skipTrivia c = ⟨.ok (), first⟩) :
    ∃ tail, blockCommentTail? (c.skipBlanks.rest.drop 2) = some tail ∧
      skipTrivia (c.skipBlanks.advanceBy (tail + 2)) = ⟨.ok (), first⟩ := by
  cases closed : blockCommentTail? (c.skipBlanks.rest.drop 2) with
  | some tail =>
      rw [skipTrivia_comment (commentReading_of_startsWith starts closed)] at skipped
      exact ⟨tail, rfl, skipped⟩
  | none =>
      obtain ⟨more, spelled⟩ := List.isPrefixOf_iff_prefix.mp starts
      have ahead : c.skipBlanks.rest = '/' :: '*' :: more := spelled.symm
      rw [ahead, List.drop_succ_cons, List.drop_succ_cons, List.drop_zero] at closed
      rw [skipTrivia] at skipped
      split at skipped <;> rename_i found <;>
        rw [ahead, CommentReading.ofChars, closed] at found <;> cases found
      cases skipped

/-- Behind an opening brace an expression is no comment that stands alone. -/
theorem Makes.readComment?_eq_none
    (makes : Makes (.expression 0 whole) c.advance.skipBlanks d)
    (opens : c.peek? = some '\x7b') :
    readComment? c = .ok none := by
  rw [readComment?_eq_none_iff opens]
  intro starts
  obtain ⟨lexeme, _, next, -⟩ := makes.exists_nextLexeme
  obtain ⟨first, skipped⟩ := next.skipTrivia
  rw [← skipBlanks_skipBlanks] at starts
  obtain ⟨tail, ended, onward⟩ := exists_blockCommentTail?_of_skipTrivia starts skipped
  rw [skipBlanks_skipBlanks] at ended onward
  refine ⟨tail, ended, eat?_eq_none_iff.mpr fun closes => ?_⟩
  have closing := (nextLexeme_of_brace closes).of_skipTrivia onward skipped
  cases makes.startsOperand closing

/-- A variable and trivia behind it are an expression. -/
theorem exists_reads_variable
    {trivia : List Char}
    (spelled : text.toList = ['$', 'x'] ++ trivia)
    (separated : Separated trivia)
    (ended : ∀ c : Cursor, c.rest = trivia →
      ∃ first, skipTrivia c = ⟨.ok (), first⟩ ∧ first.rest = []) :
    ∃ level whole stop behind, Reads level (.expression 0 whole) (.ofText text) stop ∧
      NextLexeme stop .endOfInput behind ∧ stop.rest = trivia := by
  have isIdentifier : IsIdentifier ['x'] := ⟨rfl, by decide⟩
  have operand := @Spells.isOperand _ _ _ default (spells_variable isIdentifier) rfl
  have ahead : (ofText text).rest = ['$', 'x'] ++ trivia := spelled
  have left : ((ofText text).advanceBy 2).rest = trivia := rest_advanceBy_length ahead
  obtain ⟨first, skipped, empty⟩ := ended _ left
  have next := nextLexeme_endOfInput_of_skipTrivia skipped empty
  have released {power : Nat} : Released power ((ofText text).advanceBy 2) :=
    ⟨by rwa [left], _, _, next, rfl, fun _ none => nomatch none⟩
  have leads : Leads 0 0 ['$', 'x'] _ := operand.leads.mono (Nat.zero_le _)
  obtain ⟨whole, -, level, reads⟩ :=
    leads.makes (stands_of_passes (passes_advanceBy ahead)) released released
  exact ⟨level, whole, _, first, reads, next, left⟩

end Expressions

/-! ## Places for an expression -/

/-- The places where an element may hold an expression. -/
inductive HolePlace where
  /-- A child. -/
  | child
  /-- The value of an attribute. -/
  | value
  /-- A spread. -/
  | spread

namespace HolePlace

/-- What stands in front of the expression, with the opening brace. -/
def opening : HolePlace → List Char
  | child => ['<', 'a', '>', '\x7b']
  | value => ['<', 'a', ' ', 'x', '=', '\x7b']
  | spread => ['<', 'a', ' ', '\x7b', '.', '.', '.']

/-- What stands behind the closing brace. -/
def closing : HolePlace → List Char
  | child => ['<', '/', 'a', '>']
  | value | spread => ['/', '>']

/-- The text of an element with a text in the place. -/
def source (place : HolePlace) (text : String) : String :=
  String.ofList (place.opening ++ (text.toList ++ '\n' :: '\x7d' :: place.closing))

/-- The element with an expression in the place, and nothing else in it. -/
def element (place : HolePlace) (whole : Expression) (inner outer : Span) : Element Expression :=
  match place with
  | child => ⟨"a", [], [.hole ⟨whole, inner⟩], some "a", outer⟩
  | value => .selfClosing "a" [.named ⟨"x", whole, inner⟩] outer
  | spread => .selfClosing "a" [.spread ⟨whole, inner⟩] outer

/-- The cursor in front of the text, behind what stands in front of it. -/
def cursor (place : HolePlace) (text : String) : Cursor :=
  (ofText (place.source text)).advanceBy place.opening.length

section Places

/-- The name of the element. -/
theorem isTagName : IsTagName ['a'] := ⟨rfl, .char (by decide) .nil⟩

/-- The name of the attribute. -/
theorem isAttributeName : IsAttributeName ['x'] := ⟨by decide, by decide⟩

/-- A header with one item, which the closing brace ends, and nothing else in the element. -/
theorem reads_element_iff_of_item
    {item : Cursor → AttributeItem Expression}
    {named : Cursor}
    (opens : start.peek? = some '<')
    (name : start.advance.Passes ['a'] named)
    (ends : EndsTagName named.rest)
    (items : ∀ {tail : HeaderTail Expression} {behind : Cursor},
      Reads level (.headerTail tail) named behind ↔
        ∃ after, middle.skipBlanks.eat? '\x7d' = some after ∧
          ∃ rest, Reads level (.headerTail rest) after behind ∧ tail = .cons (item after) rest)
    (closing : ∀ after, middle.skipBlanks.eat? '\x7d' = some after → after.rest = ['/', '>']) :
    Reads (level + 1) (.element tree) start d ↔
      ∃ after, middle.skipBlanks.eat? '\x7d' = some after ∧ d = after.advanceBy 2 ∧
        tree = .selfClosing "a" [item after] (start.spanTo d) := by
  have closes {after : Cursor} (closed : middle.skipBlanks.eat? '\x7d' = some after) :
      after.Passes "/>".toList (after.advanceBy 2) :=
    @passes_advanceBy _ ['/', '>'] [] (closing after closed)
  rw [reads_element_iff isTagName opens name ends]
  constructor
  · rintro ⟨tail, behind, reads, rest⟩
    obtain ⟨after, closed, others, ended, rfl⟩ := items.mp reads
    obtain ⟨rfl, rfl⟩ := (reads_headerTail_iff_of_slash (closes closed)).mp ended
    rcases rest with ⟨-, rfl, rfl⟩ | ⟨ending, -⟩
    · exact ⟨after, closed, rfl, rfl⟩
    · cases ending
  · rintro ⟨after, closed, rfl, rfl⟩
    have ended : Reads level (.headerTail ([], .selfClosing)) after _ :=
      (reads_headerTail_iff_of_slash (closes closed)).mpr ⟨rfl, rfl⟩
    exact ⟨_, _, items.mpr ⟨after, closed, _, ended, rfl⟩, .inl ⟨rfl, rfl, rfl⟩⟩

variable (expression : Reads level (.expression 0 whole) inside.skipBlanks middle)

include expression

/-- A hole is read if the closing brace follows its expression. -/
theorem reads_hole_iff_of_expression {part : Option Expression} :
    Reads level (.hole part) inside d ↔
      part = some whole ∧ middle.skipBlanks.eat? '\x7d' = some d := by
  have makes : Makes (.expression 0 whole) inside.skipBlanks middle := ⟨level, expression⟩
  rw [reads_hole_iff (makes.starts_filled (skipBlanks_skipBlanks _)).1]
  constructor
  · rintro ⟨inner, last, rfl, reads, closed⟩
    obtain ⟨rfl, rfl⟩ := reads.expression_unique expression
    exact ⟨rfl, closed⟩
  · rintro ⟨rfl, closed⟩
    exact ⟨whole, middle, rfl, expression, closed⟩

/-- The child is read if the closing brace follows it. -/
theorem reads_child_iff
    (passes : start.Passes (opening child) inside)
    (closing : ∀ after, middle.skipBlanks.eat? '\x7d' = some after →
      after.rest = HolePlace.closing child) :
    Reads (level + 1) (.element tree) start d ↔
      ∃ after, middle.skipBlanks.eat? '\x7d' = some after ∧ d = after.advanceBy 4 ∧
        tree = child.element whole ((start.advanceBy 3).spanTo after) (start.spanTo d) := by
  obtain ⟨opens, passes⟩ := passes_cons.mp passes
  obtain ⟨named, name, passes⟩ := (@passes_append _ _ ['a'] ['>', '\x7b']).mp passes
  obtain ⟨bracket, passes⟩ := passes_cons.mp passes
  obtain ⟨brace, rfl⟩ := passes_singleton.mp passes
  have third : named.advance = start.advanceBy 3 := by
    rw [name.2]
    rfl
  have makes : Makes (.expression 0 whole) named.advance.advance.skipBlanks middle :=
    ⟨level, expression⟩
  have unspread := (makes.starts_filled (skipBlanks_skipBlanks _)).2
  rw [rest_skipBlanks] at unspread
  have uncommented := makes.readComment?_eq_none brace
  have closes {after : Cursor} (closed : middle.skipBlanks.eat? '\x7d' = some after) :
      after.Passes (['<', '/'] ++ (['a'] ++ ['>'])) (after.advanceBy 4) :=
    @passes_advanceBy _ ['<', '/', 'a', '>'] [] (closing after closed)
  rw [← third, reads_element_iff isTagName opens name (endsTagName_of_peek? bracket (by decide))]
  constructor
  · rintro ⟨tail, behind, ended, rest⟩
    obtain ⟨rfl, rfl⟩ := (reads_headerTail_iff_of_bracket bracket).mp ended
    rcases rest with ⟨ending, -⟩ | ⟨-, children, content, rfl⟩
    · cases ending
    obtain ⟨_, others, after, braces, ended, rfl⟩ := (reads_content_iff_of_brace brace).mp content
    obtain ⟨part, hole, rfl⟩ := (reads_braces_iff uncommented unspread).mp braces
    obtain ⟨rfl, closed⟩ := (reads_hole_iff_of_expression expression).mp hole
    obtain ⟨rfl, rfl⟩ := (reads_content_iff_of_closing isTagName (closes closed)).mp ended
    exact ⟨after, closed, rfl, rfl⟩
  · rintro ⟨after, closed, rfl, rfl⟩
    have hole := (reads_hole_iff_of_expression expression).mpr ⟨rfl, closed⟩
    have braces := (reads_braces_iff uncommented unspread).mpr ⟨_, hole, rfl⟩
    have ended : Reads level (.content (String.ofList ['a']) .hole []) after _ :=
      (reads_content_iff_of_closing isTagName (closes closed)).mpr ⟨rfl, rfl⟩
    have tail : Reads level (.headerTail ([], .content)) named _ :=
      (reads_headerTail_iff_of_bracket bracket).mpr ⟨rfl, rfl⟩
    exact ⟨_, _, tail, .inr ⟨rfl, _,
      (reads_content_iff_of_brace brace).mpr ⟨_, _, _, braces, ended, rfl⟩, rfl⟩⟩

/-- The value is read if the closing brace follows it. -/
theorem reads_value_iff
    (passes : start.Passes (opening value) inside)
    (closing : ∀ after, middle.skipBlanks.eat? '\x7d' = some after →
      after.rest = HolePlace.closing value) :
    Reads (level + 1) (.element tree) start d ↔
      ∃ after, middle.skipBlanks.eat? '\x7d' = some after ∧ d = after.advanceBy 2 ∧
        tree = value.element whole ((start.advanceBy 3).spanTo after) (start.spanTo d) := by
  obtain ⟨opens, passes⟩ := passes_cons.mp passes
  obtain ⟨named, name, passes⟩ := (@passes_append _ _ ['a'] [' ', 'x', '=', '\x7b']).mp passes
  obtain ⟨blank, passes⟩ := passes_cons.mp passes
  obtain ⟨equals, spelled, passes⟩ := (@passes_append _ _ ['x'] ['=', '\x7b']).mp passes
  obtain ⟨equal, passes⟩ := passes_cons.mp passes
  obtain ⟨brace, rfl⟩ := passes_singleton.mp passes
  have third : named.advance = start.advanceBy 3 := by
    rw [name.2]
    rfl
  have starts := (passes_cons.mp spelled).1
  have skipped : named.skipBlanks = named.advance :=
    (passes_singleton.mpr ⟨blank, rfl⟩ : named.Passes [' '] _).skipBlanks (by decide) starts rfl
  have valued := skipBlanks_of_peek? brace rfl
  refine reads_element_iff_of_item opens name (endsTagName_of_peek? blank (by decide))
    (fun {tail behind} => ?_) closing
  rw [← third, reads_headerTail_iff_of_name (by rwa [skipped]) rfl, skipped]
  constructor
  · rintro ⟨item, after, rest, item_reads, reads, rfl⟩
    obtain ⟨_, value_reads, rfl⟩ :=
      (reads_attribute_iff isAttributeName spelled equal).mp item_reads
    rw [valued] at value_reads
    obtain ⟨part, hole, rfl⟩ := (reads_attributeValue_iff brace).mp value_reads
    obtain ⟨rfl, closed⟩ := (reads_hole_iff_of_expression expression).mp hole
    exact ⟨after, closed, rest, reads, rfl⟩
  · rintro ⟨after, closed, rest, reads, rfl⟩
    have hole := (reads_hole_iff_of_expression expression).mpr ⟨rfl, closed⟩
    have value_reads := (reads_attributeValue_iff brace).mpr ⟨_, hole, rfl⟩
    rw [← valued] at value_reads
    have item := (reads_attribute_iff isAttributeName spelled equal).mpr ⟨_, value_reads, rfl⟩
    exact ⟨_, after, rest, item, reads, rfl⟩

/-- The operand of the spread is read if the closing brace follows it. -/
theorem reads_spread_iff
    (passes : start.Passes (opening spread) inside)
    (closing : ∀ after, middle.skipBlanks.eat? '\x7d' = some after →
      after.rest = HolePlace.closing spread) :
    Reads (level + 1) (.element tree) start d ↔
      ∃ after, middle.skipBlanks.eat? '\x7d' = some after ∧ d = after.advanceBy 2 ∧
        tree = spread.element whole ((start.advanceBy 3).spanTo after) (start.spanTo d) := by
  obtain ⟨opens, passes⟩ := passes_cons.mp passes
  obtain ⟨named, name, passes⟩ := (@passes_append _ _ ['a'] [' ', '\x7b', '.', '.', '.']).mp passes
  obtain ⟨blank, passes⟩ := passes_cons.mp passes
  obtain ⟨brace, dots⟩ := passes_cons.mp passes
  have third : named.advance = start.advanceBy 3 := by
    rw [name.2]
    rfl
  have skipped : named.skipBlanks = named.advance :=
    (passes_singleton.mpr ⟨blank, rfl⟩ : named.Passes [' '] _).skipBlanks (by decide) brace rfl
  refine reads_element_iff_of_item opens name (endsTagName_of_peek? blank (by decide))
    (fun {tail behind} => ?_) closing
  rw [← third, reads_headerTail_iff_of_brace (by rwa [skipped]), skipped]
  constructor
  · rintro ⟨operand, after, rest, spread_reads, reads, rfl⟩
    obtain ⟨last, inner_reads, closed⟩ := (EmbeddedMarkup.reads_spread_iff dots).mp spread_reads
    obtain ⟨rfl, rfl⟩ := inner_reads.expression_unique expression
    exact ⟨after, closed, rest, reads, rfl⟩
  · rintro ⟨after, closed, rest, reads, rfl⟩
    have operand := (EmbeddedMarkup.reads_spread_iff dots).mpr ⟨middle, expression, closed⟩
    exact ⟨_, after, rest, operand, reads, rfl⟩

end Places

variable (place : HolePlace)

/-- The expression with its spans where it stands in the place. -/
def moved (text : String) (whole : Expression) : Expression :=
  whole.respan
    (Span.moved (ofText text).skipBlanks.position (place.cursor text).skipBlanks.position)

variable (reads : Reads level (.expression 0 whole) (.ofText text) stop)
  (ended : NextLexeme stop .endOfInput behind)

include reads ended

/-- In a place an expression is read, with the rest of its text and the closing brace behind it. -/
theorem reads_moved :
    ∃ middle, middle.rest = stop.rest ++ '\n' :: '\x7d' :: place.closing ∧
      Reads level (.expression 0 (place.moved text whole)) (place.cursor text).skipBlanks middle ∧
      ∀ {tree d}, Reads (level + 1) (.element tree) (.ofText (place.source text)) d ↔
        ∃ after, middle.skipBlanks.eat? '\x7d' = some after ∧
          d = after.advanceBy place.closing.length ∧
          tree = place.element (place.moved text whole)
            (((ofText (place.source text)).advanceBy 3).spanTo after)
            ((ofText (place.source text)).spanTo d) := by
  have passes : (ofText (place.source text)).Passes place.opening (place.cursor text) :=
    passes_advanceBy String.toList_ofList
  have ahead : (place.cursor text).rest = text.toList ++ '\n' :: '\x7d' :: place.closing :=
    rest_advanceBy_length String.toList_ofList
  have column := column_pos_ofText (le_advanceBy (ofText (place.source text)) place.opening.length)
  obtain ⟨middle, rest, moved⟩ := reads.enclosed ended column ahead
  refine ⟨middle, rest, moved, ?_⟩
  have closing {after : Cursor} (closes : middle.skipBlanks.eat? '\x7d' = some after) :
      after.rest = place.closing := by
    obtain ⟨after', closes', left⟩ :=
      exists_closes_of_blank (blank_of_closes ended rest closes) rest
    rw [closes] at closes'
    cases closes'
    exact left
  intro tree d
  cases place with
  | child => exact reads_child_iff moved passes fun _ => closing
  | value => exact reads_value_iff moved passes fun _ => closing
  | spread => exact reads_spread_iff moved passes fun _ => closing

/-- In a place nothing is read if more than blank space is left behind the expression. -/
theorem blank_of_reads_source
    (element : Reads (level + 1) (.element tree) (.ofText (place.source text)) d) :
    Blank stop.rest := by
  obtain ⟨middle, rest, -, reads_iff⟩ := place.reads_moved reads ended
  obtain ⟨after, closes, -⟩ := reads_iff.mp element
  exact blank_of_closes ended rest closes

/-- An element with the expression in it is read if blank space is left behind the expression. -/
theorem exists_reads_source (blank : Blank stop.rest) :
    ∃ inner outer d, d.rest = [] ∧
      Reads (level + 1) (.element (place.element (place.moved text whole) inner outer))
        (.ofText (place.source text)) d := by
  obtain ⟨middle, rest, -, reads_iff⟩ := place.reads_moved reads ended
  obtain ⟨after, closes, left⟩ := exists_closes_of_blank blank rest
  refine ⟨_, _, _, ?_, reads_iff.mpr ⟨after, closes, rfl, rfl⟩⟩
  rw [rest_advanceBy, left, List.drop_length]

omit reads ended

/--
Let a text consist of an expression, which its reader ends at `stop`.  In a place the text is read
as the same expression, with its spans moved, and the whole source with it, if blank space is all
that follows `stop`.  Otherwise a comment follows it, and then no element is read.
-/
theorem readElement_source_of_ofText (read : Expression.ofText text budget = .ok whole) :
    ∃ stop, (hostDelegate (.initial budget) (.ofText text)).Yields whole (.initial budget) stop ∧
      (Blank stop.rest → ∃ inner outer behind, behind.rest = [] ∧
        (readElement hostDelegate (.initial (budget + 1)) (.ofText (place.source text))).Yields
          (place.element (place.moved text whole) inner outer) (.initial (budget + 1)) behind) ∧
      (¬Blank stop.rest → ∀ tree after behind,
        ¬(readElement hostDelegate (.initial (budget + 1)) (.ofText (place.source text))).Yields
          tree after behind) := by
  obtain ⟨stop, behind, reads, ended⟩ := reads_of_ofText read
  refine ⟨stop, reads.yields_hostDelegate (ModeStack.admits_initial budget), ?_, ?_⟩
  · intro blank
    obtain ⟨inner, outer, d, whole_source, element⟩ := place.exists_reads_source reads ended blank
    exact ⟨inner, outer, d, whole_source,
      element.yields_readElement (ModeStack.admits_initial (budget + 1))⟩
  · intro words tree after d yields
    obtain ⟨-, element⟩ := reads_of_readElement (List.cons_ne_nil _ _) yields
    exact words (place.blank_of_reads_source reads ended element)

theorem readElement_source_of_ofText_variable :
    ∃ budget whole, Expression.ofText "$x\n" budget = .ok whole ∧
      ∀ place : HolePlace, ∃ inner outer behind, behind.rest = [] ∧
        (readElement hostDelegate (.initial (budget + 1)) (.ofText (place.source "$x\n"))).Yields
          (place.element (place.moved "$x\n" whole) inner outer) (.initial (budget + 1))
            behind := by
  obtain ⟨budget, whole, stop, behind, reads, ended, left⟩ :=
    @exists_reads_variable "$x\n" ['\n'] rfl (separated_cons.mpr (by decide)) fun c ahead => by
      have blank : c.skipBlanks.rest = [] := by
        rw [rest_skipBlanks, ahead]
        rfl
      exact ⟨_, skipTrivia_eq_skipBlanks (by rw [blank]; rfl), blank⟩
  have read := reads.ofText_eq_ok ended (Nat.le_refl _)
  refine ⟨budget, whole, read, fun place => ?_⟩
  obtain ⟨stop', yields, found, -⟩ := place.readElement_source_of_ofText read
  obtain ⟨_, same⟩ := reads.yields_hostDelegate (ModeStack.admits_initial budget)
  obtain ⟨_, same'⟩ := yields
  rw [same] at same'
  cases same'
  exact found (by rw [left]; simp [isBlank])

/-- With a comment behind a variable no element is read. -/
theorem not_readElement_source_comment :
    ∃ budget whole, Expression.ofText "$x /* c */" budget = .ok whole ∧
      ∀ tree after behind,
        ¬(readElement hostDelegate (.initial (budget + 1))
          (.ofText "<a>\x7b$x /* c */\n\x7d</a>")).Yields tree after behind := by
  obtain ⟨budget, whole, stop, behind, reads, ended, left⟩ :=
    @exists_reads_variable "$x /* c */" " /* c */".toList rfl (separated_cons.mpr (by decide))
      fun c ahead => by
        have found : CommentReading.ofChars c.skipBlanks.rest = .comment 7 := by
          rw [rest_skipBlanks, ahead]
          rfl
        have empty : (c.skipBlanks.advanceBy 7).skipBlanks.rest = [] := by
          rw [rest_skipBlanks, rest_advanceBy, rest_skipBlanks, ahead]
          rfl
        have skipped := skipTrivia_eq_skipBlanks (by rw [empty]; rfl)
        exact ⟨_, (skipTrivia_comment found).trans skipped, empty⟩
  refine ⟨budget, whole, reads.ofText_eq_ok ended (Nat.le_refl _), ?_⟩
  intro tree after d yields
  obtain ⟨-, element⟩ := reads_of_readElement (List.cons_ne_nil _ _) yields
  have blank := child.blank_of_reads_source reads ended element
  rw [left] at blank
  have visible := blank '/' (by decide)
  cases visible

end HolePlace
end EmbeddedMarkup
