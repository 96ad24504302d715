import EmbeddedMarkup.Proofs.Markup.Steps

/-!
# Unfolding the readers of markup

The readers of markup call themselves and each other.  Here these calls go to readers that are
given, so that a body can be told from what it calls.  The readers as they are answer the equations
that their bodies make.

A call has a rank, which is taken from the characters ahead and from the place of the reader among
those that call each other on the same characters.  A body makes only calls of lower ranks than its
own.  So readers that are right in all calls below some rank give bodies that are right in the calls
of that rank, too.
-/

namespace EmbeddedMarkup

/-! ## Congruence -/

section Congruence

variable {α β : Type} {P Q : Cursor → Prop}

theorem Outcome.andThen_congr
    {outcome outcome' : Outcome P α}
    {next next' : α → ModeStack → (stop : Cursor) → P stop → Outcome Q β}
    (first : outcome = outcome')
    (second : ∀ value modes stop reached,
      next value modes stop reached = next' value modes stop reached) :
    outcome.andThen next = outcome'.andThen next' := by
  subst first
  cases outcome with
  | success value modes stop reached => exact second value modes stop reached
  | failure fault modes => rfl

theorem Outcome.afterStep_congr
    {step : ModeStep α}
    {modes : ModeStack}
    {next next' : α → ModeStack → Outcome Q β}
    (second : ∀ value modes, next value modes = next' value modes) :
    Outcome.afterStep step modes next = .afterStep step modes next' := by
  unfold Outcome.afterStep
  split
  · exact second _ _
  · rfl

theorem Outcome.afterRead_congr
    {read : Except Fault (Read P α)}
    {modes : ModeStack}
    {next next' : α → (stop : Cursor) → P stop → Outcome Q β}
    (second : ∀ value stop reached, next value stop reached = next' value stop reached) :
    Outcome.afterRead read modes next = .afterRead read modes next' := by
  cases read with
  | ok read => exact second read.value read.stop read.reached
  | error fault => rfl

end Congruence

/-! ## Ranks -/

/-- The rank of a call at a cursor, of a reader that stands at `place` among those that call each
other at one cursor. -/
def Cursor.rank (start : Cursor) (place : Nat) : Nat :=
  7 * start.size + place

/-- A call behind the cursor has a lower rank. -/
theorem Cursor.rank_lt_of_lt
    {start stop : Cursor}
    {place place' bound : Nat}
    (enough : start.rank place' < bound + 1)
    (passed : start < stop)
    (small : place < 7) :
    stop.rank place < bound := by
  have fewer := size_lt_of_lt passed
  unfold rank at enough ⊢
  omega

/-- A call of a reader that stands before has a lower rank, wherever the cursor has moved. -/
theorem Cursor.rank_lt_of_le
    {start stop : Cursor}
    {place place' bound : Nat}
    (enough : start.rank place' < bound + 1)
    (reached : start ≤ stop)
    (before : place < place') :
    stop.rank place < bound := by
  have fewer := size_le_of_le reached
  unfold rank at enough ⊢
  omega

/-! ## The readers and their bodies -/

/-- Readers to call in place of the readers of markup that call themselves or each other. -/
@[ext]
structure MarkupReaders (ε : Type) where
  element (limit : Cursor) (delegate : DelegateBehind ε limit) (modes : ModeStack)
    (start : Cursor) (ahead : limit ≤ start) : Outcome (start < ·) (Element ε)
  content (limit : Cursor) (delegate : DelegateBehind ε limit) (modes : ModeStack)
    (start : Cursor) (ahead : limit < start) (name : String) (opened : Position)
    (left : Boundary) : Outcome (start < ·) (Content ε)
  headerTail (limit : Cursor) (delegate : DelegateBehind ε limit) (modes : ModeStack)
    (start : Cursor) (ahead : limit < start) (tag : String) (opened : Position) :
    Outcome (start < ·) (HeaderTail ε)

namespace MarkupReaders

variable {ε : Type} {limit : Cursor}

section Bodies

variable [HostConstants ε]

/-- The readers of markup as they are. -/
def actual : MarkupReaders ε where
  element _ delegate modes start ahead := readElementBehind delegate modes start ahead
  content _ delegate modes start ahead name opened left :=
    readContentBehind delegate modes start ahead name opened left
  headerTail _ delegate modes start ahead tag opened :=
    readHeaderTail delegate modes start ahead tag opened

/-- The body of `readHeaderTail`. -/
def headerTailBody
    (readers : MarkupReaders ε)
    (delegate : DelegateBehind ε limit)
    (modes : ModeStack)
    (start : Cursor)
    (ahead : limit < start)
    (tag : String)
    (opened : Position) :
    Outcome (start < ·) (HeaderTail ε) :=
  let here := start.skipBlanks
  have skipped : start ≤ here := start.le_skipBlanks
  have ahead_here : limit < here := Cursor.lt_of_lt_of_le ahead skipped
  match next : here.peek? with
  | none => .failure (.markup (.unterminatedElement tag) opened) modes
  | some '>' =>
      .success ([], .content) modes here.advance (lt_of_headerEnd skipped next)
  | some '/' =>
      match closed : here.eatText? "/>" with
      | some stop => .success ([], .selfClosing) modes stop (lt_of_selfClosed skipped closed)
      | none => .failure (.markup .expectedSelfClose here.position) modes
  | some '\x7b' =>
      let inside := here.advance
      have entered : here < inside := lt_of_brace next
      (readSpread delegate modes inside (Cursor.lt_trans ahead_here entered)).andThen
        fun expression modes behind read =>
          have read : here < behind := Cursor.lt_trans entered read
          have passed : start < behind := Cursor.lt_of_le_of_lt skipped read
          ((readers.headerTail limit delegate modes behind
              (Cursor.lt_trans ahead passed) tag opened).map
            (HeaderTail.cons (.spread ⟨expression, here.spanTo behind⟩))).weaken
            fun _ => Cursor.lt_trans passed
  | some _ =>
      (readAttribute delegate modes here ahead_here tag).andThen
        fun item modes behind read =>
          have passed : start < behind := Cursor.lt_of_le_of_lt skipped read
          ((readers.headerTail limit delegate modes behind
              (Cursor.lt_trans ahead passed) tag opened).map
            (HeaderTail.cons (.named item))).weaken
            fun _ => Cursor.lt_trans passed

/-- The body of `readHeader`, which reads the rest of the header. -/
def headerBody
    (readers : MarkupReaders ε)
    (delegate : DelegateBehind ε limit)
    (modes : ModeStack)
    (start : Cursor)
    (ahead : limit < start)
    (opened : Position) :
    Outcome (start < ·) (Header ε) :=
  let here := start.skipBlanks
  have skipped : start ≤ here := start.le_skipBlanks
  match fragment : here.eat? '>' with
  | some stop => .success ⟨"", [], .content⟩ modes stop (lt_of_closed skipped fragment)
  | none =>
      .afterRead (readTagName here) modes fun name named passed =>
        have behind : start ≤ named := Cursor.le_trans skipped passed
        ((readers.headerTail limit delegate modes named
            (Cursor.lt_of_lt_of_le ahead behind) name opened).map
          fun tail => ⟨name, tail.1, tail.2⟩).weaken
          fun _ => Cursor.lt_of_le_of_lt behind

/-- The body of `readElementBehind`. -/
def elementBody
    (readers : MarkupReaders ε)
    (delegate : DelegateBehind ε limit)
    (modes : ModeStack)
    (start : Cursor)
    (ahead : limit ≤ start) :
    Outcome (start < ·) (Element ε) :=
  match opened : start.eat? '<' with
  | none => .failure (.markup .expectedElement start.position) modes
  | some inside =>
      have entered : start < inside := lt_of_opened opened
      .afterStep (ModeStack.openTag start.position) modes fun _ modes =>
        (readers.headerBody delegate modes inside
            (Cursor.lt_of_le_of_lt ahead entered) start.position).andThen
          fun header modes behind read =>
            have passed : start < behind := Cursor.lt_trans entered read
            match header.ending with
            | .selfClosing =>
                .afterStep (ModeStack.selfClose behind.position) modes fun _ modes =>
                  .success (.selfClosing header.name header.attributes (start.spanTo behind))
                    modes behind passed
            | .content =>
                .afterStep (ModeStack.enterContent behind.position) modes fun _ modes =>
                  (readers.content limit delegate modes behind
                      (Cursor.lt_of_le_of_lt ahead passed)
                      header.name start.position .tag).andThen
                    fun content modes stop read =>
                      closeElement header content modes start stop (Cursor.lt_trans passed read)

/-- The body of `readContentBehind`. -/
def contentBody
    (readers : MarkupReaders ε)
    (delegate : DelegateBehind ε limit)
    (modes : ModeStack)
    (start : Cursor)
    (ahead : limit < start)
    (name : String)
    (opened : Position)
    (left : Boundary) :
    Outcome (start < ·) (Content ε) :=
  let (length, mark) := ContentMark.next start.rest
  let here := start.advanceBy length
  have reached : start ≤ here := start.le_advanceBy length
  have ahead_here : limit < here := Cursor.lt_of_lt_of_le ahead reached
  match mark with
  | .endOfInput => .failure (.markup (.unterminatedElement name) opened) modes
  | .closingTag =>
      .afterRead (readClosingTag here name) modes fun closing stop read =>
        .success (literalText start length left .tag, closing) modes stop
          (Cursor.lt_of_le_of_lt reached read)
  | .openingTag =>
      (readers.element limit delegate modes here (Cursor.le_of_lt ahead_here)).andThen
        fun element modes behind read =>
          have passed : start < behind := Cursor.lt_of_le_of_lt reached read
          ((readers.content limit delegate modes behind
              (Cursor.lt_trans ahead passed) name opened .tag).map
            (Content.prepend (literalText start length left .tag ++ [.element element]))).weaken
            fun _ => Cursor.lt_trans passed
  | .brace =>
      (readBraces delegate modes here ahead_here).andThen
        fun child modes behind read =>
          have passed : start < behind := Cursor.lt_of_le_of_lt reached read
          ((readers.content limit delegate modes behind
              (Cursor.lt_trans ahead passed) name opened .hole).map
            (Content.prepend (literalText start length left .hole ++ [child]))).weaken
            fun _ => Cursor.lt_trans passed

/-- The bodies of the readers of markup, with their calls going to the given readers. -/
def unfold (readers : MarkupReaders ε) : MarkupReaders ε where
  element _ := readers.elementBody
  content _ := readers.contentBody
  headerTail _ := readers.headerTailBody

/-! ## The readers answer their equations -/

theorem unfold_actual : (actual : MarkupReaders ε).unfold = actual := by
  unfold unfold
  congr
  · funext limit delegate modes start ahead
    rw [elementBody]
    simp only [actual]
    rw [readElementBehind]
    rfl
  · funext limit delegate modes start ahead name opened left
    simp only [actual]
    rw [readContentBehind]
    rfl
  · funext limit delegate modes start ahead tag opened
    simp only [actual]
    rw [readHeaderTail]
    rfl

end Bodies

/-! ## Agreement below a rank -/

/-- The readers give the same outcomes in all calls of ranks below `bound`. -/
structure AgreeBelow (bound : Nat) (readers readers' : MarkupReaders ε) : Prop where
  element : ∀ limit delegate modes start ahead, start.rank 0 < bound →
    readers.element limit delegate modes start ahead =
      readers'.element limit delegate modes start ahead
  content : ∀ limit delegate modes start ahead name opened left, start.rank 1 < bound →
    readers.content limit delegate modes start ahead name opened left =
      readers'.content limit delegate modes start ahead name opened left
  headerTail : ∀ limit delegate modes start ahead tag opened, start.rank 0 < bound →
    readers.headerTail limit delegate modes start ahead tag opened =
      readers'.headerTail limit delegate modes start ahead tag opened

namespace AgreeBelow

variable {bound : Nat} {readers readers' : MarkupReaders ε} {delegate : DelegateBehind ε limit}
  {modes : ModeStack} {start : Cursor} {place : Nat}

/-- There is no call below rank zero. -/
theorem zero (readers readers' : MarkupReaders ε) : AgreeBelow 0 readers readers' where
  element _ _ _ _ _ below := absurd below (Nat.not_lt_zero _)
  content _ _ _ _ _ _ _ _ below := absurd below (Nat.not_lt_zero _)
  headerTail _ _ _ _ _ _ _ below := absurd below (Nat.not_lt_zero _)

variable (agree : AgreeBelow bound readers readers')

include agree

theorem headerBody
    {outer : Cursor}
    (ahead : limit < start)
    {opened : Position}
    (enough : outer.rank place < bound + 1)
    (entered : outer < start) :
    readers.headerBody delegate modes start ahead opened =
      readers'.headerBody delegate modes start ahead opened := by
  unfold MarkupReaders.headerBody
  dsimp only
  split
  · rfl
  · refine Outcome.afterRead_congr fun name named reached => ?_
    have passed : outer < named :=
      Cursor.lt_of_lt_of_le entered (Cursor.le_trans start.le_skipBlanks reached)
    rw [agree.headerTail _ _ _ _ _ _ _ (Cursor.rank_lt_of_lt enough passed (by decide))]

theorem elementBody (ahead : limit ≤ start) (enough : start.rank place < bound + 1) :
    readers.elementBody delegate modes start ahead =
      readers'.elementBody delegate modes start ahead := by
  unfold MarkupReaders.elementBody
  split
  · rfl
  · rename_i inside opened
    have entered := Cursor.lt_of_eat? opened
    refine Outcome.afterStep_congr fun _ modes => ?_
    refine Outcome.andThen_congr (agree.headerBody _ enough entered) ?_
    intro header modes behind read
    have passed : start < behind := Cursor.lt_trans entered read
    cases header.ending with
    | selfClosing => rfl
    | content =>
        refine Outcome.afterStep_congr fun _ modes => ?_
        rw [agree.content _ _ _ _ _ _ _ _ (Cursor.rank_lt_of_lt enough passed (by decide))]

variable [HostConstants ε]

theorem headerTailBody
    (ahead : limit < start)
    {tag : String}
    {opened : Position}
    (enough : start.rank place < bound + 1) :
    readers.headerTailBody delegate modes start ahead tag opened =
      readers'.headerTailBody delegate modes start ahead tag opened := by
  unfold MarkupReaders.headerTailBody
  dsimp only
  split
  · rfl
  · rfl
  · rfl
  · rename_i next
    refine Outcome.andThen_congr rfl fun expression modes behind read => ?_
    have passed : start < behind :=
      Cursor.lt_of_le_of_lt start.le_skipBlanks (Cursor.lt_trans (Cursor.lt_advance next) read)
    rw [agree.headerTail _ _ _ _ _ _ _ (Cursor.rank_lt_of_lt enough passed (by decide))]
  · refine Outcome.andThen_congr rfl fun item modes behind read => ?_
    have passed : start < behind := Cursor.lt_of_le_of_lt start.le_skipBlanks read
    rw [agree.headerTail _ _ _ _ _ _ _ (Cursor.rank_lt_of_lt enough passed (by decide))]

theorem contentBody
    (ahead : limit < start)
    {name : String}
    {opened : Position}
    {left : Boundary}
    (enough : start.rank 1 < bound + 1) :
    readers.contentBody delegate modes start ahead name opened left =
      readers'.contentBody delegate modes start ahead name opened left := by
  have reached : start ≤ start.advanceBy (ContentMark.next start.rest).1 := start.le_advanceBy _
  unfold MarkupReaders.contentBody
  dsimp only
  cases (ContentMark.next start.rest).2 with
  | endOfInput => rfl
  | closingTag => rfl
  | openingTag =>
      refine Outcome.andThen_congr
        (agree.element _ _ _ _ _ (Cursor.rank_lt_of_le enough reached (by decide))) ?_
      intro element modes behind read
      have passed : start < behind := Cursor.lt_of_le_of_lt reached read
      rw [agree.content _ _ _ _ _ _ _ _ (Cursor.rank_lt_of_lt enough passed (by decide))]
  | brace =>
      refine Outcome.andThen_congr rfl fun child modes behind read => ?_
      have passed : start < behind := Cursor.lt_of_le_of_lt reached read
      rw [agree.content _ _ _ _ _ _ _ _ (Cursor.rank_lt_of_lt enough passed (by decide))]

/-- Bodies agree in the calls of one more rank. -/
protected theorem unfold : AgreeBelow (bound + 1) readers.unfold readers'.unfold where
  element _ _ _ _ ahead enough := agree.elementBody ahead enough
  content _ _ _ _ ahead _ _ _ enough := agree.contentBody ahead enough
  headerTail _ _ _ _ ahead _ _ enough := agree.headerTailBody ahead enough

end AgreeBelow

/-- Readers that agree in all calls are the same. -/
theorem eq_of_agreeBelow
    {readers readers' : MarkupReaders ε}
    (agree : ∀ bound, AgreeBelow bound readers readers') :
    readers = readers' := by
  ext limit delegate modes start ahead
  · rw [(agree _).element _ _ _ _ _ (Nat.lt_succ_self _)]
  · rw [(agree _).content _ _ _ _ _ _ _ _ (Nat.lt_succ_self _)]
  · rw [(agree _).headerTail _ _ _ _ _ _ _ (Nat.lt_succ_self _)]

end MarkupReaders

end EmbeddedMarkup
