import EmbeddedMarkup.Markup.Reader
import EmbeddedMarkup.Proofs.Markup.Marks
import EmbeddedMarkup.Proofs.Markup.Steps
import EmbeddedMarkup.Proofs.Reading.Causes
import EmbeddedMarkup.Proofs.Reading.MarkupSoundness

/-!
# Calls of the readers of markup

The readers of markup are called where something is known to be ahead.  An element is only asked for
where markup starts, so it has its `<` and a name or a `>`.  A closing tag has been compared with
its opening tag before the element is made.  So it does not matter what the readers would do
elsewhere.
-/

namespace EmbeddedMarkup

variable {ε : Type} {limit start : Cursor} {modes : ModeStack}

/-! ## Where markup starts -/

/-- The characters ahead look like a tag where the reader of elements finds a tag. -/
theorem startsMarkup_iff :
    startsMarkup start.rest = true ↔
      ∃ inside, start.eat? '<' = some inside ∧
        ((inside.skipBlanks.eat? '>').isSome = true ∨
          startsIdentifier inside.skipBlanks.rest = true) := by
  cases ahead : start.rest with
  | nil => simp [startsMarkup, Cursor.eat?, Cursor.peek?, ahead]
  | cons ch rest =>
      by_cases bracket : ch = '<'
      · have behind : start.advance.rest = rest := by
          rw [Cursor.rest_advance, ahead, List.drop_one, List.tail_cons]
        simp only [bracket, startsMarkup, Cursor.eat?, Cursor.peek?, ahead, List.head?_cons,
          if_true, Option.some.injEq, exists_eq_left', Cursor.rest_skipBlanks, behind,
          startsIdentifier]
        cases rest.dropWhile isBlank with
        | nil => simp
        | cons next more => by_cases closes : next = '>' <;> simp [closes]
      · simp [startsMarkup, Cursor.eat?, Cursor.peek?, ahead, bracket]

/-- Content marks a tag where markup starts. -/
theorem ContentMark.startsMarkup_of_next
    {rest : List Char}
    (found : (next rest).2 = .openingTag) :
    startsMarkup (rest.drop (next rest).1) = true := by
  have found : next rest = ((next rest).1, .openingTag) := Prod.ext rfl found
  obtain ⟨-, -, marked⟩ := unmarked_of_next found
  cases ahead : rest.drop (next rest).1 with
  | nil =>
      rw [ahead] at marked
      cases marked
  | cons ch more =>
      rw [ahead, next] at marked
      split at marked
      · rename_i mark here
        cases marked
        unfold at? at here
        split at here
        · cases here
        · split at here
          · assumption
          · split at here <;> cases here
      · cases marked

/-! ## Content -/

section Content

variable [HostConstants ε] {delegate : DelegateBehind ε limit}

/-- Content ends with a closing tag of the name that it was read for. -/
theorem closing_eq_of_yields_readContentBehind
    {ahead : limit < start}
    {name : String}
    {opened : Position}
    {left : Boundary}
    {content : Content ε}
    {after : ModeStack}
    {stop : Cursor}
    (yields : (readContentBehind delegate modes start ahead name opened left).Yields content after
      stop) :
    content.2 = name := by
  induction size : start.size using Nat.strongRecOn
    generalizing start modes left content with
  | ind size shorter =>
      subst size
      have reached := start.le_advanceBy (ContentMark.next start.rest).1
      rw [readContentBehind] at yields
      dsimp only at yields
      split at yields
      · exact absurd yields Outcome.not_yields_failure
      · obtain ⟨closing, read, yields⟩ := Outcome.yields_afterRead.mp yields
        obtain ⟨rfl, -, -⟩ := Outcome.yields_success.mp yields
        exact (of_readClosingTag read).1
      · obtain ⟨element, _, behind, -, read, more⟩ := Outcome.yields_andThen.mp yields
        rw [Outcome.yields_weaken, Outcome.yields_map] at more
        obtain ⟨others, closes, rfl⟩ := more
        have passed : start < behind := Cursor.lt_of_le_of_lt reached read
        exact (shorter _ (Cursor.size_lt_of_lt passed) closes rfl : others.2 = name)
      · obtain ⟨child, _, behind, -, read, more⟩ := Outcome.yields_andThen.mp yields
        rw [Outcome.yields_weaken, Outcome.yields_map] at more
        obtain ⟨others, closes, rfl⟩ := more
        have passed : start < behind := Cursor.lt_of_le_of_lt reached read
        exact (shorter _ (Cursor.size_lt_of_lt passed) closes rfl : others.2 = name)

end Content

/-! ## Calls -/

/-- A reader of elements. -/
abbrev ElementReader (ε : Type) : Type :=
  (limit : Cursor) → DelegateBehind ε limit → ModeStack → (start : Cursor) → limit ≤ start →
    Outcome (start < ·) (Element ε)

/-- The reader reads markup as it is read here.  It may do anything where no markup starts. -/
def ElementReader.ReadsMarkup [HostConstants ε] (reader : ElementReader ε) : Prop :=
  ∀ limit delegate modes start ahead, startsMarkup start.rest = true →
    reader limit delegate modes start ahead = readElementBehind delegate modes start ahead

/-- What makes an element of a header and content. -/
abbrev ElementCloser (ε : Type) : Type :=
  Header ε → Content ε → ModeStack → (start stop : Cursor) → start < stop →
    Outcome (start < ·) (Element ε)

/-- The element is made as here of names that are equal.  Anything may be made of others. -/
def ElementCloser.ClosesEqualNames (closer : ElementCloser ε) : Prop :=
  ∀ header content modes start stop passed, content.2 = header.name →
    closer header content modes start stop passed =
      closeElement header content modes start stop passed

section Calls

variable [HostConstants ε]

/-- Reading an element, with its parts put together by `closer`. -/
def readElementWith
    (closer : ElementCloser ε)
    (delegate : DelegateBehind ε limit)
    (modes : ModeStack)
    (start : Cursor)
    (ahead : limit ≤ start) :
    Outcome (start < ·) (Element ε) :=
  match opened : start.eat? '<' with
  | none => .failure (.markup .expectedElement start.position) modes
  | some inside =>
      have entered : start < inside := lt_of_opened opened
      .afterStep (ModeStack.openTag start.position) modes fun _ modes =>
        (readHeader delegate modes inside
            (Cursor.lt_of_le_of_lt ahead entered) start.position).andThen
          fun header modes behind read =>
            have passed : start < behind := Cursor.lt_trans entered read
            match header.ending with
            | .selfClosing =>
                .afterStep (ModeStack.selfClose behind.position) modes fun _ modes =>
                  .success (.selfClosing header.name header.attributes (start.spanTo behind))
                    modes behind passed
            | .content =>
                .afterStep (ModeStack.enterContent behind.position) modes fun _ modes =>
                  (readContentBehind delegate modes behind
                      (Cursor.lt_of_le_of_lt ahead passed)
                      header.name start.position .tag).andThen
                    fun content modes stop read =>
                      closer header content modes start stop (Cursor.lt_trans passed read)

/-- Reading content, with its elements read by `reader`. -/
def readContentWith
    (reader : ElementReader ε)
    (delegate : DelegateBehind ε limit)
    (modes : ModeStack)
    (start : Cursor)
    (ahead : limit < start)
    (name : String)
    (opened : Position)
    (left : Boundary) :
    Outcome (start < ·) (Content ε) :=
  let (length, mark) := ContentMark.next start.rest
  let here := start.advanceBy length
  have reached : start ≤ here := start.le_advanceBy length
  have ahead_here : limit < here := Cursor.lt_of_lt_of_le ahead reached
  match mark with
  | .endOfInput => .failure (.markup (.unterminatedElement name) opened) modes
  | .closingTag =>
      .afterRead (readClosingTag here name) modes fun closing stop read =>
        .success (literalText start length left .tag, closing) modes stop
          (Cursor.lt_of_le_of_lt reached read)
  | .openingTag =>
      (reader limit delegate modes here (Cursor.le_of_lt ahead_here)).andThen
        fun element modes behind read =>
          have passed : start < behind := Cursor.lt_of_le_of_lt reached read
          ((readContentBehind delegate modes behind
              (Cursor.lt_trans ahead passed) name opened .tag).map
            (Content.prepend (literalText start length left .tag ++ [.element element]))).weaken
            fun _ => Cursor.lt_trans passed
  | .brace =>
      (readBraces delegate modes here ahead_here).andThen
        fun child modes behind read =>
          have passed : start < behind := Cursor.lt_of_le_of_lt reached read
          ((readContentBehind delegate modes behind
              (Cursor.lt_trans ahead passed) name opened .hole).map
            (Content.prepend (literalText start length left .hole ++ [child]))).weaken
            fun _ => Cursor.lt_trans passed

variable {delegate : DelegateBehind ε limit}

/-- Elements are only made of names that are equal. -/
theorem readElementBehind_eq_readElementWith
    {closer : ElementCloser ε}
    (closes : closer.ClosesEqualNames)
    (modes : ModeStack)
    (start : Cursor)
    (ahead : limit ≤ start) :
    readElementBehind delegate modes start ahead =
      readElementWith closer delegate modes start ahead := by
  rw [readElementWith]
  split <;> rename_i opened <;> rw [readElementBehind] <;> split <;> rename_i opened'
  · rfl
  · rw [opened] at opened'
    cases opened'
  · rw [opened] at opened'
    cases opened'
  · obtain rfl := Option.some.inj (opened.symm.trans opened')
    dsimp only
    congr
    funext _ modes
    congr
    funext header modes behind read
    cases header.ending with
    | selfClosing => rfl
    | content =>
        dsimp only
        congr
        funext _ modes
        refine Outcome.andThen_congr_of_yields ?_
        intro content modes stop read yields
        exact (closes _ _ _ _ _ _ (closing_eq_of_yields_readContentBehind yields)).symm

/-- In content elements are only read where markup starts. -/
theorem readContentBehind_eq_readContentWith
    {reader : ElementReader ε}
    (readsMarkup : reader.ReadsMarkup)
    (modes : ModeStack)
    (start : Cursor)
    (ahead : limit < start)
    (name : String)
    (opened : Position)
    (left : Boundary) :
    readContentBehind delegate modes start ahead name opened left =
      readContentWith reader delegate modes start ahead name opened left := by
  rw [readContentBehind, readContentWith]
  dsimp only
  cases mark : (ContentMark.next start.rest).2 with
  | endOfInput => rfl
  | closingTag => rfl
  | openingTag =>
      have markup : startsMarkup (start.advanceBy (ContentMark.next start.rest).1).rest = true := by
        rw [Cursor.rest_advanceBy]
        exact ContentMark.startsMarkup_of_next mark
      dsimp only
      rw [readsMarkup _ _ _ _ _ markup]
  | brace => rfl

end Calls

end EmbeddedMarkup
