import EmbeddedMarkup.Proofs.HostText.Bodies
import EmbeddedMarkup.Proofs.HostText.Tracking

/-!
# Opaque tokens

Strings, comments, heredocs and inline text are opaque: a scanner takes each of them as a whole,
whatever it holds.  How such a token opens decides how it may go on, and what a scanner takes behind
an opening is exactly what may stand there.
-/

namespace EmbeddedMarkup

open Cursor

variable {text later : List Char} {start : Bool} {length : Nat}

/-- How a heredoc opens behind its `<<<`, up to the end of its line. -/
structure HeredocOpening where
  blanks : List Char
  quote : Option Char
  label : List Char
  /-- What else stands in the line, where the label may be closed by a quote. -/
  more : List Char
  areBlanks : ∀ ch ∈ blanks, isInlineBlank ch = true
  isQuote : ∀ ch ∈ quote, ch = '"' ∨ ch = '\''
  nonempty : label ≠ []
  proper : ∀ ch ∈ label, isIdentifierChar ch = true
  ends : EndsLabel more
  oneLine : '\n' ∉ more

/-- How an opaque token opens. -/
inductive OpaqueOpening where
  | string (quote : Char) (isQuote : quote = '\'' ∨ quote = '"' ∨ quote = '\x60')
  | blockComment
  /-- With `#`, or with `//`. -/
  | lineComment (hash : Bool)
  | heredoc (opening : HeredocOpening)
  | inlineText

namespace HeredocOpening

variable (opening : HeredocOpening)

/-- The characters behind `<<<`, with the line feed. -/
def chars : List Char :=
  opening.blanks ++ (opening.quote.toList ++ (opening.label ++ (opening.more ++ ['\n'])))

/-- A heredoc reaches as far as its lines do. -/
theorem heredocAhead_eq (text : List Char) :
    heredocAhead (opening.chars ++ text) =
      match heredocTail? opening.label ('\n' :: text) with
      | some length => .pass ⟨opening.chars.length + length + 1, false⟩
      | none => .unterminated .unterminatedHeredoc := by
  obtain ⟨blanks, quote, label, more, areBlanks, isQuote, nonempty, proper, ends, oneLine⟩ :=
    opening
  simp only [chars, List.append_assoc, List.singleton_append]
  obtain ⟨first, others, rfl⟩ := List.exists_cons_of_ne_nil nonempty
  have letter := proper first List.mem_cons_self
  have opened : (blanks ++ (quote.toList ++ (first :: others ++ (more ++ '\n' :: text)))).takeWhile
      isInlineBlank = blanks := by
    rw [List.takeWhile_append_of_pos areBlanks]
    cases quote with
    | none => simp [isInlineBlank_eq_false letter]
    | some q => rcases isQuote q rfl with rfl | rfl <;> simp <;> rfl
  have quoted : (quote.toList ++ (first :: others ++ (more ++ '\n' :: text))).head?.filter
      (fun c => c == '"' || c == '\'') = quote := by
    cases quote with
    | none =>
        have plain : first ≠ '"' ∧ first ≠ '\'' := by
          constructor <;> rintro rfl <;> cases letter
        simp [Option.filter, plain]
    | some q => rcases isQuote q rfl with rfl | rfl <;> rfl
  have visible : quote ≠ some '\n' := by
    rintro rfl
    rcases isQuote _ rfl with same | same <;> cases same
  have behind : (blanks ++ (quote.toList ++ (first :: others ++ (more ++ '\n' :: text)))).drop
      (blanks.length + quote.toList.length) = first :: others ++ (more ++ '\n' :: text) := by
    rw [← List.length_append, ← List.append_assoc, List.drop_left]
  rw [heredocAhead_eq_labelAhead]
  dsimp only
  rw [opened, List.drop_left, quoted, labelAhead_eq visible nonempty proper ends oneLine behind]
  cases heredocTail? (first :: others) ('\n' :: text) with
  | none => rfl
  | some length =>
      simp only [List.length_append, List.length_cons, List.length_nil]
      congr 2
      omega

end HeredocOpening

namespace OpaqueOpening

variable {opening : OpaqueOpening} {completion : List Char}

/-- The first character. -/
def first : OpaqueOpening → Char
  | string quote _ => quote
  | blockComment => '/'
  | lineComment hash => if hash then '#' else '/'
  | heredoc _ => '<'
  | inlineText => '?'

/-- The characters behind the first one. -/
def more : OpaqueOpening → List Char
  | string _ _ => []
  | blockComment => ['*']
  | lineComment hash => if hash then [] else ['/']
  | heredoc opening => '<' :: '<' :: opening.chars
  | inlineText => ['>']

/-- The characters that a token opens with. -/
def chars (opening : OpaqueOpening) : List Char :=
  opening.first :: opening.more

/-- An expression may start behind the token, where `start` says whether one may start before. -/
def onward (start : Bool) : OpaqueOpening → Bool
  | string _ _ | heredoc _ => false
  | blockComment | lineComment _ => start
  | inlineText => true

/-- What may stand behind the unit of a scanner as the last part of the token. -/
def endings : OpaqueOpening → List (List Char)
  | lineComment _ => [['\n'], ['\r'], ['\r', '\n']]
  | _ => [[]]

/-- How far a token reaches behind its opening. -/
def tail? (text : List Char) : OpaqueOpening → Option Nat
  | string quote _ => quotedTail? quote text
  | blockComment => blockCommentTail? text
  | lineComment _ => some (lineCommentLength text)
  | heredoc opening => (heredocTail? opening.label ('\n' :: text)).map (· - 1)
  | inlineText => some (inlineTextLength text)

/-- In front of an opaque token a scanner passes over it, or the token has no end. -/
theorem exists_hostAhead_eq (opening : OpaqueOpening) (start : Bool) (text : List Char) :
    ∃ cause, hostAhead start opening.first (opening.more ++ text) =
      match opening.tail? text with
      | some length => .pass ⟨opening.more.length + length, opening.onward start⟩
      | none => .unterminated cause := by
  cases opening with
  | string quote isQuote =>
      have ahead : hostAhead start quote text = stringAhead quote text := by
        rcases isQuote with rfl | rfl | rfl <;> cases start <;> rfl
      refine ⟨.unterminatedString, ?_⟩
      simp only [first, more, tail?, onward, List.nil_append, List.length_nil, Nat.zero_add, ahead]
      rfl
  | blockComment =>
      have ahead : hostAhead start '/' ('*' :: text) = commentAhead start text := by
        cases start <;> rfl
      refine ⟨.unterminatedComment, ?_⟩
      simp only [first, more, tail?, onward, List.singleton_append, List.length_singleton, ahead]
      rw [commentAhead]
      cases blockCommentTail? text with
      | none => rfl
      | some length => simp [Nat.add_comm]
  | lineComment hash =>
      refine ⟨.unterminatedComment, ?_⟩
      cases hash with
      | true =>
          have ahead : hostAhead start '#' text = .pass ⟨lineCommentLength text, start⟩ := by
            cases start <;> rfl
          simp [first, more, tail?, onward, ahead]
      | false =>
          have ahead : hostAhead start '/' ('/' :: text) =
              .pass ⟨lineCommentLength text + 1, start⟩ := by
            cases start <;> rfl
          simp [first, more, tail?, onward, ahead, Nat.add_comm]
  | heredoc opening =>
      have ahead : hostAhead start '<' ('<' :: '<' :: (opening.chars ++ text)) =
          heredocAhead (opening.chars ++ text) :=
        rfl
      refine ⟨.unterminatedHeredoc, ?_⟩
      simp only [first, more, tail?, onward, List.cons_append, ahead, opening.heredocAhead_eq]
      cases closed : heredocTail? opening.label ('\n' :: text) with
      | none => rfl
      | some length =>
          obtain ⟨inner, rfl⟩ := Nat.exists_eq_succ_of_ne_zero (heredocTail?_pos closed).ne'
          have lengths : opening.chars.length + (inner + 1) + 1 =
              opening.chars.length + 1 + 1 + inner := by
            omega
          simp [lengths]
  | inlineText =>
      have ahead : hostAhead start '?' ('>' :: text) = .pass ⟨inlineTextLength text + 1, true⟩ := by
        cases start <;> rfl
      refine ⟨.unterminatedComment, ?_⟩
      simp [first, more, tail?, onward, ahead, Nat.add_comm]

/-- A scanner passes over an opaque token up to its end. -/
theorem hostAhead_eq_pass_iff {unit : HostUnit} :
    hostAhead start opening.first (opening.more ++ text) = .pass unit ↔
      ∃ length, opening.tail? text = some length ∧
        unit = ⟨opening.more.length + length, opening.onward start⟩ := by
  obtain ⟨cause, ahead⟩ := opening.exists_hostAhead_eq start text
  rw [ahead]
  cases opening.tail? text <;> simp [eq_comm]

/-- No markup is ahead of an opaque token. -/
theorem hostAhead_ne_markup : hostAhead start opening.first (opening.more ++ text) ≠ .markup := by
  obtain ⟨cause, ahead⟩ := opening.exists_hostAhead_eq start text
  rw [ahead]
  cases opening.tail? text <;> simp

/-- The loop of a scanner takes a token with this opening as a whole, in front of `later`. -/
def Takes (opening : OpaqueOpening) (start : Bool) (completion later : List Char) : Prop :=
  ∃ body, ∃ ending ∈ opening.endings, completion = body ++ ending ∧
    ∃ unit, hostAhead start opening.first (opening.more ++ (completion ++ later)) = .pass unit ∧
      unit.tail = (opening.more ++ body).length

/-- A token is complete with these characters behind its opening. -/
inductive Completes : OpaqueOpening → List Char → Prop
  | string {quote : Char} {isQuote : quote = '\'' ∨ quote = '"' ∨ quote = '\x60'}
      {body : List Char} :
      IsQuotedBody quote body →
      Completes (string quote isQuote) (body ++ [quote])
  | blockComment {body : List Char} :
      IsCommentBody body →
      Completes blockComment (body ++ ['*', '/'])
  | lineComment {hash : Bool} {body ending : List Char} :
      IsLineBody body →
      ending ∈ (lineComment hash).endings →
      Completes (lineComment hash) (body ++ ending)
  | heredoc {opening : HeredocOpening} {lines : List (List Char)} {blanks : List Char} :
      (∀ line ∈ lines, IsHeredocLine opening.label line) →
      (∀ ch ∈ blanks, isInlineBlank ch = true) →
      Completes (heredoc opening) (ofLines lines ++ blanks ++ opening.label)
  | inlineText {body : List Char} :
      IsInlineBody body →
      Completes inlineText body

/-- What may follow a token with this opening. -/
def Allows : OpaqueOpening → List Char → Prop
  | heredoc _, later => EndsLabel later
  | inlineText, later => inlineTextLength later = 0
  | string _ _, _ | blockComment, _ | lineComment _, _ => True

/-- What a scanner takes behind an opening ends where the token does. -/
theorem takes_iff_tail? :
    opening.Takes start completion later ↔
      ∃ body, ∃ ending ∈ opening.endings, completion = body ++ ending ∧
        opening.tail? (completion ++ later) = some body.length := by
  constructor
  · rintro ⟨body, ending, isEnding, rfl, unit, pass, whole⟩
    obtain ⟨length, found, rfl⟩ := hostAhead_eq_pass_iff.mp pass
    rw [List.length_append] at whole
    rw [Nat.add_left_cancel whole] at found
    exact ⟨body, ending, isEnding, rfl, found⟩
  · rintro ⟨body, ending, isEnding, rfl, found⟩
    exact ⟨body, ending, isEnding, rfl, _, hostAhead_eq_pass_iff.mpr ⟨_, found, rfl⟩,
      (List.length_append).symm⟩

theorem takes_iff_of_endings (whole : opening.endings = [[]]) :
    opening.Takes start completion later ↔
      opening.tail? (completion ++ later) = some completion.length := by
  simp [takes_iff_tail?, whole]

/-- A line comment is taken as a whole exactly if nothing but its ending ends it. -/
theorem takes_lineComment_iff {hash : Bool} :
    (lineComment hash).Takes start completion later ↔ (lineComment hash).Completes completion := by
  have reaches {body ending : List Char} (isEnding : ending ∈ (lineComment hash).endings) :
      lineCommentLength (body ++ ending ++ later) = body.length ↔ IsLineBody body := by
    obtain ⟨ch, more, rfl, ends⟩ : ∃ ch more, ending = ch :: more ∧ isLineEnd ch = true := by
      simp only [endings, List.mem_cons, List.not_mem_nil, or_false] at isEnding
      rcases isEnding with rfl | rfl | rfl <;> exact ⟨_, _, rfl, rfl⟩
    rw [List.append_assoc]
    exact lineCommentLength_eq_iff ends
  rw [takes_iff_tail?]
  constructor
  · rintro ⟨body, ending, isEnding, rfl, found⟩
    exact .lineComment ((reaches isEnding).mp (Option.some.inj found)) isEnding
  · intro complete
    cases complete with
    | lineComment isBody isEnding =>
        exact ⟨_, _, isEnding, rfl, congrArg some ((reaches isEnding).mpr isBody)⟩

/-- A heredoc is taken as a whole exactly if its first closing label is its own, and ends there. -/
theorem takes_heredoc_iff {opening : HeredocOpening} :
    (heredoc opening).Takes start completion later ↔
      (heredoc opening).Completes completion ∧ (heredoc opening).Allows later := by
  rw [takes_iff_of_endings rfl, tail?, Allows]
  constructor
  · intro found
    obtain ⟨length, closed, whole⟩ := Option.map_eq_some_iff.mp found
    obtain ⟨lines, blanks, rest, areLines, areBlanks, ends, same, rfl⟩ :=
      exists_lines_of_heredocTail? opening.proper closed
    obtain ⟨rfl, rfl⟩ := List.append_inj same whole.symm
    exact ⟨.heredoc areLines areBlanks, ends⟩
  · rintro ⟨complete, ends⟩
    cases complete with
    | heredoc areLines areBlanks =>
        rw [heredocTail?_of_lines opening.nonempty opening.proper areLines areBlanks ends]
        rfl

/-- A scanner takes a token as a whole exactly if it is complete and nothing continues it. -/
theorem takes_iff :
    opening.Takes start completion later ↔ opening.Completes completion ∧ opening.Allows later := by
  cases opening with
  | string quote isQuote =>
      have plain : quote ≠ '\\' := by
        rcases isQuote with rfl | rfl | rfl <;> decide
      rw [takes_iff_of_endings rfl, tail?, quotedTail?_eq_length_iff plain, Allows, and_true]
      constructor
      · rintro ⟨body, isBody, rfl⟩
        exact .string isBody
      · intro complete
        cases complete with
        | string isBody => exact ⟨_, isBody, rfl⟩
  | blockComment =>
      rw [takes_iff_of_endings rfl, tail?, blockCommentTail?_eq_length_iff, Allows, and_true]
      constructor
      · rintro ⟨body, isBody, rfl⟩
        exact .blockComment isBody
      · intro complete
        cases complete with
        | blockComment isBody => exact ⟨_, isBody, rfl⟩
  | lineComment hash => rw [takes_lineComment_iff, Allows, and_true]
  | heredoc opening => exact takes_heredoc_iff
  | inlineText =>
      rw [takes_iff_of_endings rfl, tail?, Allows, Option.some_inj, inlineTextLength_eq_iff]
      refine and_congr_left' ⟨.inlineText, fun complete => ?_⟩
      cases complete with
      | inlineText isBody => exact isBody

theorem isBlank_first (opening : OpaqueOpening) : isBlank opening.first = false := by
  cases opening with
  | string quote isQuote => rcases isQuote with rfl | rfl | rfl <;> rfl
  | lineComment hash => cases hash <;> rfl
  | _ => rfl

theorem isBlank_of_mem_ending
    {ending : List Char}
    {ch : Char}
    (isEnding : ending ∈ opening.endings)
    (member : ch ∈ ending) :
    isBlank ch = true := by
  cases opening with
  | lineComment hash =>
      have blank : ∀ ending ∈ [['\n'], ['\r'], ['\r', '\n']], ∀ ch ∈ ending, isBlank ch = true := by
        decide
      exact blank ending isEnding ch member
  | _ =>
      cases List.mem_singleton.mp isEnding
      cases member

/-- A scanner goes on behind a token that it takes. -/
theorem next_of_takes
    {c d : Cursor}
    (taken : opening.Takes start completion d.rest)
    (passes : c.Passes (opening.chars ++ completion) d) :
    HostScanner.next ⟨c, start⟩ = HostScanner.next ⟨d, opening.onward start⟩ := by
  obtain ⟨body, ending, isEnding, rfl, unit, pass, whole⟩ := taken
  obtain ⟨length, -, rfl⟩ := hostAhead_eq_pass_iff.mp pass
  have ahead : c.rest = opening.first :: (opening.more ++ (body ++ ending ++ d.rest)) := by
    rw [passes.1, chars, List.append_assoc]
    rfl
  rw [← List.append_assoc] at passes
  obtain ⟨middle, ⟨-, reached⟩, behind⟩ := passes_append.mp passes
  have taken : middle = c.advanceBy (opening.more.length + length + 1) := by
    rw [reached, chars, List.cons_append, List.length_cons, ← whole]
  rw [HostScanner.next_pass ahead opening.isBlank_first pass, ← taken,
    ← HostScanner.next_skipBlanks, behind.skipBlanks_eq fun _ => isBlank_of_mem_ending isEnding,
    HostScanner.next_skipBlanks]

end OpaqueOpening

end EmbeddedMarkup
