import EmbeddedMarkup.Proofs.HostText.Scanning
import EmbeddedMarkup.Proofs.Reading.Ends
import EmbeddedMarkup.Proofs.Tree.Parts

/-!
# Expressions that stand alone

The readers stop an expression where something follows that does not belong to it, and they go on
with what they have read: a connective takes all that stands in front of it as its left operand, an
access takes it as its base.  Nevertheless the text that the span of an expression covers makes
this expression where it stands alone, for the nodes in host code at least.  A bare name is the
exception: it is called or accessed only because of what follows it, and alone it is a constant.

What connects or accesses is read again from the first token of its left part on.  If that part is
in parentheses, they belong to the text.
-/

namespace EmbeddedMarkup

open Cursor

variable {level : Nat} {a b c c' d first start behind middle : Cursor} {lexeme : Lexeme}
  {whole left base : Expression} {form : ExpressionForm Expression}

/-! ## Behind trivia -/

/-- Behind trivia there are no more of them. -/
theorem skipTrivia_skipTrivia (skipped : skipTrivia c = ⟨.ok (), first⟩) :
    skipTrivia first = ⟨.ok (), first⟩ := by
  obtain ⟨still, absent⟩ := of_skipTrivia skipped
  rw [skipTrivia_eq_skipBlanks (by rw [still, absent]), still]

/-- Where trivia end some visible text is ahead, if any is. -/
theorem exists_visible_of_skipTrivia
    (skipped : skipTrivia c = ⟨.ok (), first⟩)
    (more : first < d) :
    ∃ ch, first.peek? = some ch ∧ isBlank ch = false := by
  obtain ⟨still, -⟩ := of_skipTrivia skipped
  obtain ⟨ch, rest, ahead⟩ := exists_cons_of_lt more
  have next : first.peek? = some ch := peek?_eq_some_iff.mpr ⟨rest, ahead⟩
  refine ⟨ch, next, @fails_of_peek?_skipWhile first ch isBlank ?_⟩
  rw [← next]
  exact congrArg Cursor.peek? still

/-- What is next depends on where the trivia in front of it end. -/
theorem NextLexeme.of_skipTrivia
    (next : NextLexeme c lexeme d)
    (skipped : EmbeddedMarkup.skipTrivia c = ⟨.ok (), first⟩)
    (again : EmbeddedMarkup.skipTrivia c' = ⟨.ok (), first⟩) :
    NextLexeme c' lexeme d := by
  obtain ⟨length, read, rfl⟩ := read_of_skipTrivia next skipped
  exact nextLexeme_of_skipTrivia again read

theorem NextLexeme.behindTrivia
    (next : NextLexeme c lexeme d)
    (skipped : EmbeddedMarkup.skipTrivia c = ⟨.ok (), first⟩) :
    NextLexeme first lexeme d :=
  next.of_skipTrivia skipped (skipTrivia_skipTrivia skipped)

/-- A primary is read wherever the trivia in front of it end there. -/
theorem Reads.primary_of_skipTrivia
    (reads : Reads level (.primary whole) c d)
    (skipped : skipTrivia c = ⟨.ok (), first⟩)
    (again : skipTrivia c' = ⟨.ok (), first⟩) :
    Reads level (.primary whole) c' d := by
  cases reads with
  | leaf skipped' next leaf =>
      rw [skipped] at skipped'
      cases skipped'
      exact .leaf again (next.of_skipTrivia skipped again) leaf
  | name skipped' next alone =>
      rw [skipped] at skipped'
      cases skipped'
      exact .name again (next.of_skipTrivia skipped again) alone
  | arrayCall skipped' next array opened entries =>
      rw [skipped] at skipped'
      cases skipped'
      exact .arrayCall again (next.of_skipTrivia skipped again) array opened entries
  | array skipped' next entries =>
      rw [skipped] at skipped'
      cases skipped'
      exact .array again (next.of_skipTrivia skipped again) entries
  | function skipped' next function =>
      rw [skipped] at skipped'
      cases skipped'
      exact .function again (next.of_skipTrivia skipped again) function
  | parenthesized next inner closed =>
      exact .parenthesized (next.of_skipTrivia skipped again) inner closed

/-- An operand is read wherever the trivia in front of it end there. -/
theorem Reads.operand_of_skipTrivia
    (reads : Reads level (.operand whole) c d)
    (skipped : skipTrivia c = ⟨.ok (), first⟩)
    (again : skipTrivia c' = ⟨.ok (), first⟩) :
    Reads level (.operand whole) c' d := by
  cases reads with
  | markup skipped' tag element =>
      rw [skipped] at skipped'
      cases skipped'
      exact .markup again tag element
  | not skipped' plain next inner =>
      rw [skipped] at skipped'
      cases skipped'
      exact .not again plain (next.of_skipTrivia skipped again) inner
  | negate skipped' plain next inner =>
      rw [skipped] at skipped'
      cases skipped'
      exact .negate again plain (next.of_skipTrivia skipped again) inner
  | unsigned skipped' plain next not_not not_minus primary accesses =>
      rw [skipped] at skipped'
      cases skipped'
      exact .unsigned again plain (next.of_skipTrivia skipped again) not_not not_minus
        (primary.primary_of_skipTrivia skipped again) accesses

/-- An expression is read wherever the trivia in front of it end there. -/
theorem Reads.expression_of_skipTrivia
    {power : Nat}
    (reads : Reads level (.expression power whole) c d)
    (skipped : skipTrivia c = ⟨.ok (), first⟩)
    (again : skipTrivia c' = ⟨.ok (), first⟩) :
    Reads level (.expression power whole) c' d := by
  cases reads with
  | expression skipped' operand continuation =>
      rw [skipped] at skipped'
      cases skipped'
      exact .expression again (operand.operand_of_skipTrivia skipped again) continuation

theorem Reads.primary_behindTrivia
    (reads : Reads level (.primary whole) c d)
    (skipped : skipTrivia c = ⟨.ok (), first⟩) :
    Reads level (.primary whole) first d :=
  reads.primary_of_skipTrivia skipped (skipTrivia_skipTrivia skipped)

theorem Reads.operand_behindTrivia
    (reads : Reads level (.operand whole) c d)
    (skipped : skipTrivia c = ⟨.ok (), first⟩) :
    Reads level (.operand whole) first d :=
  reads.operand_of_skipTrivia skipped (skipTrivia_skipTrivia skipped)

/-! ## Texts that are cut out -/

/-- Where the text from `a` to `b` stands alone, the phrase is read from the copy of `c` on. -/
def Phrase.IsCutOut (a b : Cursor) (level : Nat) (phrase : Phrase) (c : Cursor) : Prop :=
  ∀ ⦃a'⦄, a.Copied b a' → (a.copy a' b).rest = [] →
    Reads level (phrase.copy a a') (a.copy a' c) (a.copy a' b)

/-- Host code that ends where the text is cut is read in the text alone. -/
theorem Reads.isCutOut
    {phrase : Phrase}
    (reads : Reads level phrase c b)
    (within : ∀ a', (a.copy a' b).rest = [] → phrase.Within a b a' c b)
    (inside : a ≤ c) :
    phrase.IsCutOut a b level c :=
  fun a' copied ended => reads.copies copied inside (within a' ended)

/--
Behind `c` there is the text that the span of the expression covers, and where it stands alone it
makes the expression.  A bare name becomes a constant.
-/
def Expression.StandsAlone (level : Nat) (c : Cursor) (whole : Expression) : Prop :=
  ∃ a b, c ≤ a ∧ whole.span = a.spanTo b ∧ (∃ ch, a.peek? = some ch ∧ isBlank ch = false) ∧
    a.StopsVisibly b ∧ (Phrase.expression 0 whole.nameAsConstant).IsCutOut a b level a

namespace Expression

theorem StandsAlone.mono
    {more : Nat}
    (alone : whole.StandsAlone level d)
    (fits : level ≤ more)
    (reached : c ≤ d) :
    whole.StandsAlone more c := by
  obtain ⟨a, b, front, span, opens, stops, reads⟩ := alone
  exact ⟨a, b, Cursor.le_trans reached front, span, opens, stops,
    fun _ copied ended => (reads copied ended).mono fits⟩

/-- A bare name and the constant that it becomes stand alone alike. -/
theorem StandsAlone.nameAsConstant (alone : whole.StandsAlone level c) :
    whole.nameAsConstant.StandsAlone level c := by
  obtain ⟨a, b, front, span, opens, stops, reads⟩ := alone
  refine ⟨a, b, front, ?_, opens, stops, ?_⟩
  · rw [← span]
    obtain ⟨form, _⟩ := whole
    cases form <;> rfl
  · rwa [nameAsConstant_of_isName_eq_false (isName_nameAsConstant whole)]

end Expression

/-- An operand that stands alone is an expression that does. -/
theorem standsAlone_of_operand
    (skipped : skipTrivia c = ⟨.ok (), a⟩)
    (starts : StartsBefore a b)
    (stops : a.StopsVisibly b)
    (span : whole.span = a.spanTo b)
    (operand : (Phrase.operand whole.nameAsConstant).IsCutOut a b level a) :
    whole.StandsAlone (level + 1) c := by
  refine ⟨a, b, le_of_skipTrivia skipped, span, exists_visible_of_skipTrivia skipped stops.lt,
    stops, ?_⟩
  intro a' copied ended
  have followed : FollowedIn a b a' b := .inr ⟨rfl, .nothing ended⟩
  have here := followed.of_starts starts
  have skipped' := here.skipTrivia copied a.le_refl (skipTrivia_skipTrivia skipped)
  exact .expression skipped' (operand copied ended)
    (.stop (nextLexeme_endOfInput ended) (by simp [Lexeme.binding?]))

/-- What an operand with a sign in front or markup makes stands alone. -/
theorem Reads.standsAlone_operand
    (reads : Reads level (.operand whole) c d)
    (skipped : skipTrivia c = ⟨.ok (), first⟩)
    (span : whole.span = first.spanTo d)
    (proper : whole.isName = false) :
    whole.StandsAlone (level + 1) c := by
  have again := reads.operand_behindTrivia skipped
  refine standsAlone_of_operand skipped again.starts_operand (again.stopsVisibly rfl) span ?_
  rw [Expression.nameAsConstant_of_isName_eq_false proper]
  exact again.isCutOut (fun _ ended => .inr ⟨rfl, .nothing ended⟩) first.le_refl

/-- What a primary without parentheses makes stands alone: nothing accesses it there. -/
theorem Reads.standsAlone_primary
    (reads : Reads level (.primary whole) c d)
    (skipped : skipTrivia c = ⟨.ok (), first⟩)
    (next : NextLexeme c lexeme behind)
    (unsigned : ∀ kind, lexeme = .symbol kind → kind = .leftBracket)
    (span : whole.span = first.spanTo d) :
    whole.StandsAlone (level + 1) c := by
  have other {kind : Symbol} (foreign : kind ≠ .leftBracket) : lexeme ≠ .symbol kind :=
    fun same => foreign (unsigned kind same)
  have again := reads.primary_behindTrivia skipped
  have starts := again.starts_primary
  refine standsAlone_of_operand skipped starts (again.stopsVisibly rfl) span ?_
  intro a' copied ended
  have followed : FollowedIn first d a' d := .inr ⟨rfl, .nothing ended⟩
  have here := followed.of_starts starts
  have plain := startsMarkup_eq_false skipped next ⟨other (by simp), other (by simp)⟩
  have here_plain :=
    here.startsMarkup_eq_false copied first.le_refl (skipTrivia_skipTrivia skipped) plain
  have here_next := here.nextLexeme copied first.le_refl (next.behindTrivia skipped)
  have here_skipped := here.skipTrivia copied first.le_refl (skipTrivia_skipTrivia skipped)
  have primary : (Phrase.primary whole).IsCutOut first d level first :=
    again.isCutOut (fun _ ended => .inr ⟨rfl, .nothing ended⟩) first.le_refl
  rw [Phrase.copy, Expression.respan_nameAsConstant]
  exact .unsigned here_skipped here_plain here_next (other (by simp)) (other (by simp))
    (primary copied ended) (.noAccess (nextLexeme_endOfInput ended) rfl)

/-! ## What goes on with a left part -/

theorem isCutOut_stop {power : Nat} :
    (Phrase.continuation start power left left).IsCutOut a b level b :=
  fun _ _ ended => .stop (nextLexeme_endOfInput ended) (by simp [Lexeme.binding?])

theorem isCutOut_noAccess :
    (Phrase.accesses start base base.nameAsConstant).IsCutOut a b level b := by
  intro a' copied ended
  rw [Phrase.copy, Expression.respan_nameAsConstant]
  exact .noAccess (nextLexeme_endOfInput ended) rfl

/-- A text goes on where it is not cut. -/
theorem followedIn_of_startsBefore
    {a' : Cursor}
    (ended : (a.copy a' b).rest = [])
    (onward : c = b ∨ StartsBefore c b) :
    FollowedIn a b a' c := by
  rcases onward with rfl | starts
  · exact .inr ⟨rfl, .nothing ended⟩
  · exact (FollowedIn.of_starts (.inr ⟨rfl, .nothing ended⟩) starts).followed

/-- Behind a connection the text is cut, or it goes on. -/
theorem isCutOut_connect
    {binding : Binding}
    (inside : start ≤ c)
    (next : NextLexeme c lexeme behind)
    (connects : lexeme.binding? = some binding)
    (connection : Reads level (.connection binding left form) behind middle)
    (onward : middle = b ∨ StartsBefore middle b)
    (rest : (Phrase.continuation start 0 ⟨form, start.spanTo middle⟩ whole).IsCutOut start b level
      middle) :
    (Phrase.continuation start 0 left whole).IsCutOut start b level c := by
  intro a' copied ended
  have followed := followedIn_of_startsBefore ended onward
  have more := Lexeme.ne_endOfInput_of_binding? connects
  have here := (followed.of_reads connection rfl).of_next next more
  have inside' := Cursor.le_trans inside next.le
  have rest' := rest copied ended
  rw [Phrase.copy, respan_spanTo copied start.le_refl (Cursor.le_trans inside' connection.le)
    followed.le_stop] at rest'
  exact .connect (here.nextLexeme copied inside next) connects (Nat.zero_le _)
    (connection.copies copied inside' followed) rest'

/-- Behind an access the text is cut, or it goes on. -/
theorem isCutOut_access
    (inside : start ≤ c)
    (access : Reads level (.access base form) c middle)
    (onward : middle = b ∨ StartsBefore middle b)
    (rest : (Phrase.accesses start ⟨form, start.spanTo middle⟩ whole).IsCutOut start b level
      middle) :
    (Phrase.accesses start base whole).IsCutOut start b level c := by
  intro a' copied ended
  have followed := followedIn_of_startsBefore ended onward
  have rest' := rest copied ended
  rw [Phrase.copy, respan_spanTo copied start.le_refl (Cursor.le_trans inside access.le)
    followed.le_stop] at rest'
  exact .moreAccesses (access.copies copied inside followed) rest'

/--
What is read from `c` on continues the text from `start` so that it makes `inner`, and where the
text ends with `inner`, the phrase with `inner` is read.
-/
def Expression.Continues
    (level : Nat)
    (start c : Cursor)
    (phrase : Expression → Phrase)
    (inner : Expression) : Prop :=
  ∃ b, inner.span = start.spanTo b ∧ StartsBefore c b ∧ c.StopsVisibly b ∧
    (phrase inner.nameAsConstant).IsCutOut start b level c

/-- Neither a connective nor an access makes a bare name. -/
theorem isName_of_reads_connection
    {binding : Binding}
    {span : Span}
    (connection : Reads level (.connection binding left form) c d) :
    (⟨form, span⟩ : Expression).isName = false := by
  cases connection <;> rfl

theorem isName_of_reads_access
    {span : Span}
    (access : Reads level (.access base form) c d) :
    (⟨form, span⟩ : Expression).isName = false := by
  cases access with
  | @memberAccess _ _ _ _ arguments => cases arguments <;> rfl
  | @staticAccess _ _ _ arguments => cases arguments <;> rfl
  | entryAccess | callAccess => rfl

/-- What a connection makes continues its left part. -/
theorem continues_connection
    {binding : Binding}
    (inside : start ≤ c)
    (next : NextLexeme c lexeme behind)
    (connects : lexeme.binding? = some binding)
    (connection : Reads level (.connection binding left form) behind middle) :
    Expression.Continues level start c (.continuation start 0 left)
      ⟨form, start.spanTo middle⟩ := by
  have more := Lexeme.ne_endOfInput_of_binding? connects
  refine ⟨middle, rfl, next.startsBefore more connection.le,
    (connection.stopsVisibly rfl).of_le next.le, ?_⟩
  rw [Expression.nameAsConstant_of_isName_eq_false (isName_of_reads_connection connection)]
  exact isCutOut_connect inside next connects connection (.inl rfl) isCutOut_stop

/-- What continues the result of a connection continues its left part. -/
theorem continues_behind_connection
    {binding : Binding}
    {inner : Expression}
    (inside : start ≤ c)
    (next : NextLexeme c lexeme behind)
    (connects : lexeme.binding? = some binding)
    (connection : Reads level (.connection binding left form) behind middle)
    (continues : inner.Continues level start middle
      (.continuation start 0 ⟨form, start.spanTo middle⟩)) :
    inner.Continues level start c (.continuation start 0 left) := by
  obtain ⟨b, span, starts, stops, rest⟩ := continues
  have more := Lexeme.ne_endOfInput_of_binding? connects
  have onward := Cursor.le_trans next.le connection.le
  have passed := Cursor.le_trans connection.le (Cursor.le_of_lt stops.lt)
  exact ⟨b, span, next.startsBefore more passed, stops.of_le onward,
    isCutOut_connect inside next connects connection (.inr starts) rest⟩

/-- What an access makes continues its base. -/
theorem continues_access
    (inside : start ≤ c)
    (access : Reads level (.access base form) c middle) :
    Expression.Continues level start c (.accesses start base) ⟨form, start.spanTo middle⟩ := by
  refine ⟨middle, rfl, access.starts_access, access.stopsVisibly rfl, ?_⟩
  exact isCutOut_access inside access (.inl rfl) isCutOut_noAccess

/-- What continues the result of an access continues its base. -/
theorem continues_behind_access
    {inner : Expression}
    (inside : start ≤ c)
    (access : Reads level (.access base form) c middle)
    (continues : inner.Continues level start middle (.accesses start ⟨form, start.spanTo middle⟩)) :
    inner.Continues level start c (.accesses start base) := by
  obtain ⟨b, span, starts, stops, rest⟩ := continues
  exact ⟨b, span, access.starts_access.mono (Cursor.le_of_lt stops.lt), stops.of_le access.le,
    isCutOut_access inside access (.inr starts) rest⟩

/-- What continues a primary stands alone, from the first token of the primary on. -/
theorem standsAlone_of_continues_primary
    {inner : Expression}
    {after : Cursor}
    (skipped : skipTrivia c = ⟨.ok (), start⟩)
    (plain : startsMarkup start.rest = false)
    (next : NextLexeme c lexeme after)
    (not_not : lexeme ≠ .symbol .not)
    (not_minus : lexeme ≠ .symbol .minus)
    (primary : Reads level (.primary base) c behind)
    (continues : inner.Continues level start behind (.accesses start base)) :
    inner.StandsAlone (level + 1) c := by
  obtain ⟨b, span, starts, stops, rest⟩ := continues
  have again := primary.primary_behindTrivia skipped
  have starts_here := again.starts_primary.mono (Cursor.le_of_lt stops.lt)
  refine standsAlone_of_operand skipped starts_here (stops.of_le again.le) span ?_
  intro a' copied ended
  have followed := followedIn_of_startsBefore ended (.inr starts)
  have here := followed.of_starts again.starts_primary
  have again_skipped := skipTrivia_skipTrivia skipped
  have here_plain := here.startsMarkup_eq_false copied start.le_refl again_skipped plain
  exact .unsigned (here.skipTrivia copied start.le_refl again_skipped) here_plain
    (here.nextLexeme copied start.le_refl (next.behindTrivia skipped)) not_not not_minus
    (again.copies copied start.le_refl followed) (rest copied ended)

/-- What continues an operand stands alone, from the first token of the operand on. -/
theorem standsAlone_of_continues_operand
    {inner : Expression}
    (skipped : skipTrivia c = ⟨.ok (), start⟩)
    (operand : Reads level (.operand left) c behind)
    (continues : inner.Continues level start behind (.continuation start 0 left)) :
    inner.StandsAlone (level + 1) c := by
  obtain ⟨b, span, starts, stops, rest⟩ := continues
  have again := operand.operand_behindTrivia skipped
  have stops_here := stops.of_le again.le
  refine ⟨start, b, le_of_skipTrivia skipped, span,
    exists_visible_of_skipTrivia skipped stops_here.lt, stops_here, ?_⟩
  intro a' copied ended
  have followed := followedIn_of_startsBefore ended (.inr starts)
  have here := followed.of_starts again.starts_operand
  exact .expression (here.skipTrivia copied start.le_refl (skipTrivia_skipTrivia skipped))
    (again.copies copied start.le_refl followed) (rest copied ended)

/-! ## All nodes -/

/-- All nodes of the expression stand alone, those in markup apart. -/
def Expression.NodesAlone (level : Nat) (c : Cursor) (whole : Expression) : Prop :=
  ∀ inner, whole.HostContains inner → inner.StandsAlone level c

theorem Expression.NodesAlone.mono
    {more : Nat}
    (alone : whole.NodesAlone level d)
    (fits : level ≤ more)
    (reached : c ≤ d) :
    whole.NodesAlone more c :=
  fun inner inside => (alone inner inside).mono fits reached

/-- All nodes stand alone if the outer one does and all nodes of its parts do. -/
theorem nodesAlone_of_parts
    {span : Span}
    (alone : Expression.StandsAlone (level + 1) c ⟨form, span⟩)
    (parts : ∀ part ∈ form.parts, part.NodesAlone level d)
    (reached : c ≤ d) :
    Expression.NodesAlone (level + 1) c ⟨form, span⟩ := by
  intro inner inside
  cases inside with
  | self => exact alone
  | part member inside => exact (parts _ member inner inside).mono (Nat.le_succ level) reached

/--
The nodes that a phrase makes stand alone.  Those of its left part do not all, for the phrase may
only be the rest of a text that starts with them.
-/
def Phrase.NodesAlone (level : Nat) (c : Cursor) : Phrase → Prop
  | .expression _ whole => whole.NodesAlone level c
  | .operand whole | .primary whole => whole.NodesAlone (level + 1) c
  | .continuation start _ left whole =>
      start ≤ c → ∀ inner, whole.HostContains inner →
        left.HostContains inner ∨ inner.StandsAlone (level + 1) c ∨
          inner.Continues level start c (.continuation start 0 left)
  | .accesses start base whole =>
      start ≤ c → ∀ inner, whole.HostContains inner →
        (inner = base.nameAsConstant ∨ base.HostContains inner) ∨
          inner.StandsAlone (level + 1) c ∨ inner.Continues level start c (.accesses start base)
  | .connection _ left form | .access left form =>
      ∀ part ∈ form.parts, part = left ∨ part.NodesAlone level c
  | .optional _ part => ∀ inner ∈ part, inner.NodesAlone level c
  | .arrowFunction form => ∀ part ∈ form.parts, part.NodesAlone level c
  | .entry _ item => ∀ part ∈ item.parts, part.NodesAlone level c
  | .entries _ _ items => ∀ part ∈ items.flatMap ArrayItem.parts, part.NodesAlone level c
  | .member _ arguments =>
      ∀ part ∈ (arguments.getD []).map Argument.value, part.NodesAlone level c
  | _ => True

section Rules

variable {power : Nat} {name : String} {items : List (ArrayItem Expression)}

theorem nodesAlone_expression
    (skipped : skipTrivia c = ⟨.ok (), start⟩)
    (operand : Reads level (.operand left) c behind)
    (operand' : (Phrase.operand left).NodesAlone level c)
    (continuation' : (Phrase.continuation start power left whole).NodesAlone level behind) :
    (Phrase.expression power whole).NodesAlone (level + 1) c := by
  intro inner inside
  have order := operand.starts_operand.le_of_skipTrivia skipped
  rcases continuation' order inner inside with inside | alone | continues
  · exact operand' inner inside
  · exact alone.mono (Nat.le_refl _) operand.le
  · exact standsAlone_of_continues_operand skipped operand continues

theorem nodesAlone_connect
    {binding : Binding}
    (next : NextLexeme c lexeme behind)
    (connects : lexeme.binding? = some binding)
    (connection : Reads level (.connection binding left form) behind middle)
    (connection' : (Phrase.connection binding left form).NodesAlone level behind)
    (continuation' : (Phrase.continuation start power ⟨form, start.spanTo middle⟩ whole).NodesAlone
      level middle) :
    (Phrase.continuation start power left whole).NodesAlone level c := by
  intro order inner inside
  have onward := Cursor.le_trans next.le connection.le
  rcases continuation' (Cursor.le_trans order onward) inner inside with inside | alone | continues
  · cases inside with
    | self => exact .inr (.inr (continues_connection order next connects connection))
    | part member inside =>
        rcases connection' _ member with rfl | alone
        · exact .inl inside
        · exact .inr (.inl ((alone inner inside).mono (Nat.le_succ level) next.le))
  · exact .inr (.inl (alone.mono (Nat.le_refl _) onward))
  · exact .inr (.inr (continues_behind_connection order next connects connection continues))

theorem nodesAlone_unsigned
    {after : Cursor}
    (skipped : skipTrivia c = ⟨.ok (), start⟩)
    (plain : startsMarkup start.rest = false)
    (next : NextLexeme c lexeme after)
    (not_not : lexeme ≠ .symbol .not)
    (not_minus : lexeme ≠ .symbol .minus)
    (primary : Reads level (.primary base) c behind)
    (primary' : (Phrase.primary base).NodesAlone level c)
    (accesses' : (Phrase.accesses start base whole).NodesAlone level behind) :
    (Phrase.operand whole).NodesAlone level c := by
  intro inner inside
  have order := primary.starts_primary.le_of_skipTrivia skipped
  rcases accesses' order inner inside with (rfl | inside) | alone | continues
  · exact (primary' base .self).nameAsConstant
  · exact primary' inner inside
  · exact alone.mono (Nat.le_refl _) primary.le
  · exact standsAlone_of_continues_primary skipped plain next not_not not_minus primary continues

theorem nodesAlone_moreAccesses
    (access : Reads level (.access base form) c middle)
    (access' : (Phrase.access base form).NodesAlone level c)
    (accesses' : (Phrase.accesses start ⟨form, start.spanTo middle⟩ whole).NodesAlone level
      middle) :
    (Phrase.accesses start base whole).NodesAlone level c := by
  intro order inner inside
  rcases accesses' (Cursor.le_trans order access.le) inner inside with
    (rfl | inside) | alone | continues
  · rw [Expression.nameAsConstant_of_isName_eq_false (isName_of_reads_access access)]
    exact .inr (.inr (continues_access order access))
  · cases inside with
    | self => exact .inr (.inr (continues_access order access))
    | part member inside =>
        rcases access' _ member with rfl | alone
        · exact .inl (.inr inside)
        · exact .inr (.inl ((alone inner inside).mono (Nat.le_succ level) (Cursor.le_refl _)))
  · exact .inr (.inl (alone.mono (Nat.le_refl _) access.le))
  · exact .inr (.inr (continues_behind_access order access continues))

/-- The form of a lexeme has no parts. -/
theorem Lexeme.parts_leaf (leaf : lexeme.leaf? = some form) :
    form.parts = [] ∧ ∀ kind, lexeme ≠ .symbol kind := by
  cases lexeme <;> cases leaf <;> exact ⟨rfl, fun _ same => by cases same⟩

theorem nodesAlone_leaf
    (skipped : skipTrivia c = ⟨.ok (), first⟩)
    (next : NextLexeme c lexeme d)
    (leaf : lexeme.leaf? = some form) :
    (Phrase.primary ⟨form, first.spanTo d⟩).NodesAlone level c := by
  obtain ⟨partless, word⟩ := Lexeme.parts_leaf leaf
  have alone := (@Reads.leaf level _ _ _ _ _ skipped next leaf).standsAlone_primary skipped next
    (fun kind same => absurd same (word kind)) rfl
  exact nodesAlone_of_parts alone (by simp [partless]) c.le_refl

/-- The values of arguments are parts of the entries that the arguments are read as. -/
theorem nodesAlone_arguments
    (entries : ∀ part ∈ items.flatMap ArrayItem.parts, part.NodesAlone level d)
    (reached : c ≤ d) :
    ∀ part ∈ (items.map ArrayItem.toArgument).map Argument.value, part.NodesAlone level c := by
  intro part member
  rw [List.map_map] at member
  obtain ⟨item, present, rfl⟩ := List.mem_map.mp member
  refine (entries item.value (List.mem_flatMap.mpr ⟨item, present, ?_⟩)).mono (Nat.le_refl _)
    reached
  exact List.mem_append_right _ List.mem_cons_self

/-- A member that is accessed on `base` has it and the arguments as its parts. -/
theorem nodesAlone_member
    {arguments : Option (List (Argument Expression))}
    (parts : form.parts = base :: (arguments.getD []).map Argument.value)
    (member' : (Phrase.member name arguments).NodesAlone level d)
    (reached : c ≤ d) :
    (Phrase.access base form).NodesAlone level c := by
  rw [Phrase.NodesAlone, parts]
  refine List.forall_mem_cons.mpr ⟨.inl rfl, fun part member => .inr ?_⟩
  exact (member' part member).mono (Nat.le_refl _) reached

end Rules

/-- All nodes in host code stand alone. -/
theorem Reads.nodesAlone
    {phrase : Phrase}
    (reads : Reads level phrase c d) :
    phrase.NodesAlone level c := by
  induction reads with
  | expression skipped operand _ operand' continuation' =>
      exact nodesAlone_expression skipped operand operand' continuation'
  | stop => exact fun _ _ inside => .inl inside
  | connect next connects _ connection _ connection' continuation' =>
      exact nodesAlone_connect next connects connection connection' continuation'
  | binary _ operand' =>
      exact List.forall_mem_cons.mpr ⟨.inl rfl, List.forall_mem_singleton.mpr (.inr operand')⟩
  | assign _ _ value' =>
      exact List.forall_mem_cons.mpr ⟨.inl rfl, List.forall_mem_singleton.mpr (.inr value')⟩
  | ternary ifTrue next _ ifTrue' ifFalse' =>
      refine List.forall_mem_cons.mpr ⟨.inl rfl, List.forall_mem_append.mpr ⟨?_, ?_⟩⟩
      · exact fun part member => .inr (ifTrue' part (Option.mem_toList.mp member))
      · exact List.forall_mem_singleton.mpr
          (.inr (ifFalse'.mono (Nat.le_refl _) (Cursor.le_trans ifTrue.le next.le)))
  | absent =>
      intro inner member
      cases member
  | present _ _ _ part' =>
      intro inner member
      cases member
      exact part'
  | markup skipped tag element =>
      have alone := (Reads.markup skipped tag element).standsAlone_operand skipped rfl rfl
      exact nodesAlone_of_parts alone (by simp [ExpressionForm.parts]) (Cursor.le_refl _)
  | not skipped plain next inner inner' =>
      have alone := (Reads.not skipped plain next inner).standsAlone_operand skipped rfl rfl
      exact nodesAlone_of_parts alone (List.forall_mem_singleton.mpr inner') next.le
  | negate skipped plain next inner inner' =>
      have alone := (Reads.negate skipped plain next inner).standsAlone_operand skipped rfl rfl
      exact nodesAlone_of_parts alone (List.forall_mem_singleton.mpr inner') next.le
  | unsigned skipped plain next not_not not_minus primary _ primary' accesses' =>
      exact nodesAlone_unsigned skipped plain next not_not not_minus primary primary' accesses'
  | leaf skipped next leaf => exact nodesAlone_leaf skipped next leaf
  | @name level text c _ _ skipped next alone =>
      have standing := (@Reads.name level _ _ _ _ skipped next alone).standsAlone_primary skipped
        next (by simp) rfl
      exact nodesAlone_of_parts standing (by simp [ExpressionForm.parts]) (Cursor.le_refl c)
  | arrayCall skipped next array opened entries entries' =>
      have alone := (Reads.arrayCall skipped next array opened entries).standsAlone_primary skipped
        next (by simp) rfl
      exact nodesAlone_of_parts alone entries' (Cursor.le_trans next.le opened.le)
  | array skipped next entries entries' =>
      have alone := (Reads.array skipped next entries).standsAlone_primary skipped next
        (by simp) rfl
      exact nodesAlone_of_parts alone entries' next.le
  | function skipped next function function' =>
      have alone := (Reads.function skipped next function).standsAlone_primary skipped next
        (by simp) rfl
      exact nodesAlone_of_parts alone function' next.le
  | @parenthesized level _ _ _ _ _ next _ _ inner' => exact inner'.mono (Nat.le_succ level) next.le
  | arrowFunction next list arrow _ _ body' =>
      exact List.forall_mem_singleton.mpr (body'.mono (Nat.le_refl _)
        (Cursor.le_trans next.le (Cursor.le_trans list.le arrow.le)))
  | plainEntry _ ellipsis _ _ value' =>
      exact List.forall_mem_singleton.mpr (value'.mono (Nat.le_refl _) ellipsis.le)
  | keyedEntry _ _ key next _ key' value' =>
      exact List.forall_mem_cons.mpr ⟨key', List.forall_mem_singleton.mpr
        (value'.mono (Nat.le_refl _) (Cursor.le_trans key.le next.le))⟩
  | noEntries =>
      intro part member
      cases member
  | lastEntry _ _ _ _ _ item' =>
      rw [Phrase.NodesAlone, List.flatMap_singleton]
      exact item'
  | moreEntries _ _ item comma _ item' items' =>
      rw [Phrase.NodesAlone, List.flatMap_cons]
      refine List.forall_mem_append.mpr ⟨item', fun part member => ?_⟩
      exact (items' part member).mono (Nat.le_refl _) (Cursor.le_trans item.le comma.le)
  | plainMember =>
      intro part member
      cases member
  | calledMember next opened _ entries' =>
      exact nodesAlone_arguments entries' (Cursor.le_trans next.le opened.le)
  | @memberAccess _ _ _ _ arguments _ _ _ next _ member' =>
      exact nodesAlone_member (by cases arguments <;> rfl) member' next.le
  | entryAccess next _ _ index' =>
      refine List.forall_mem_cons.mpr ⟨.inl rfl, fun part member => .inr ?_⟩
      exact (index' part (Option.mem_toList.mp member)).mono (Nat.le_refl _) next.le
  | callAccess next _ _ entries' =>
      refine List.forall_mem_cons.mpr ⟨.inl rfl, fun part member => .inr ?_⟩
      exact nodesAlone_arguments entries' next.le part member
  | @staticAccess _ _ _ arguments _ _ _ next _ _ member' =>
      exact nodesAlone_member (by cases arguments <;> rfl) member' next.le
  | noAccess => exact fun _ _ inside => .inl inside.of_nameAsConstant
  | moreAccesses access _ access' accesses' =>
      exact nodesAlone_moreAccesses access access' accesses'
  | _ => exact trivial

end EmbeddedMarkup
