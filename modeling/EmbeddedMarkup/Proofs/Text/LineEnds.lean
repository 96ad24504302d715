import EmbeddedMarkup.Proofs.Markup.Marks
import EmbeddedMarkup.Proofs.Markup.TagNames
import EmbeddedMarkup.Proofs.Text.Comment

/-!
# Line ends

A text is written again with other line ends: every line feed gets a carriage return in front.  What
the readers see of a text does not change by that.  They tell carriage returns from line feeds only
where a position moves, so whatever takes the first characters of a text takes the same characters
of the text that is written again, with their line ends.

Line ends may also be kept, and then the second text is the first one.  Two runs on one text are the
case of two texts in which nothing is written in another way.
-/

namespace EmbeddedMarkup

/-- How the line feeds of a text are written again. -/
inductive LineEnds where
  /-- As they are. -/
  | kept
  /-- With a carriage return in front of each of them. -/
  | paired
deriving DecidableEq, Repr

namespace LineEnds

/-- How a character is written again. -/
def spell : LineEnds → Char → List Char
  | .kept, ch => [ch]
  | .paired, ch => if ch = '\n' then ['\r', '\n'] else [ch]

/-- How a text is written again. -/
def write (ends : LineEnds) (cs : List Char) : List Char :=
  cs.flatMap ends.spell

/-- How many characters the first `n` characters of a text take where it is written again. -/
def reach (ends : LineEnds) (cs : List Char) (n : Nat) : Nat :=
  (ends.write (cs.take n)).length

/-- What a text says, whether it is written again or not. -/
def clean : LineEnds → List Char → List Char
  | .kept, cs => cs
  | .paired, cs => cs.filter (· ≠ '\r')

/-- What a string says, whether it was read from a text that is written again or not. -/
def plain (ends : LineEnds) (text : String) : String :=
  String.ofList (ends.clean text.toList)

end LineEnds

/-- No line end stands in the text. -/
def InLine (text : List Char) : Prop :=
  ∀ ch ∈ text, isLineEnd ch = false

instance (text : List Char) : Decidable (InLine text) :=
  inferInstanceAs (Decidable (∀ ch ∈ text, isLineEnd ch = false))

/-- The test does not tell a carriage return from a line feed. -/
def LineBlind (p : Char → Bool) : Prop :=
  p '\r' = p '\n'

variable {ends : LineEnds} {ch : Char} {cs rest front later text : List Char} {n m : Nat}
  {p : Char → Bool}

theorem inLine_cons : InLine (ch :: text) ↔ isLineEnd ch = false ∧ InLine text :=
  List.forall_mem_cons

theorem InLine.of_opens (inLine : InLine text) (opens : front <+: text) : InLine front :=
  fun ch member => inLine ch (opens.subset member)

theorem isLineEnd_eq_false_iff : isLineEnd ch = false ↔ ch ≠ '\n' ∧ ch ≠ '\r' := by
  simp [isLineEnd]

theorem ne_feed_of_isLineEnd (inLine : isLineEnd ch = false) : ch ≠ '\n' :=
  (isLineEnd_eq_false_iff.mp inLine).1

theorem isLineEnd_of_isBlank (visible : isBlank ch = false) : isLineEnd ch = false := by
  simp only [isBlank, Bool.or_eq_false_iff, beq_eq_false_iff_ne] at visible
  exact isLineEnd_eq_false_iff.mpr ⟨visible.1.1.2, visible.2⟩

/-- What passes a test that no line end passes is no line end. -/
theorem isLineEnd_of_passes (passes : p ch = true) (feed : p '\n' = false) (blind : LineBlind p) :
    isLineEnd ch = false := by
  refine isLineEnd_eq_false_iff.mpr ⟨?_, ?_⟩
  · rintro rfl
    rw [feed] at passes
    cases passes
  · rintro rfl
    rw [blind, feed] at passes
    cases passes

theorem inLine_takeWhile (feed : p '\n' = false) (blind : LineBlind p) :
    InLine (cs.takeWhile p) :=
  fun ch member => isLineEnd_of_passes (List.all_eq_true.mp List.all_takeWhile ch member) feed blind

namespace LineEnds

@[simp] theorem write_nil : ends.write [] = [] := rfl

theorem write_cons : ends.write (ch :: cs) = ends.spell ch ++ ends.write cs :=
  List.flatMap_cons

theorem write_append : ends.write (front ++ later) = ends.write front ++ ends.write later :=
  List.flatMap_append

theorem spell_of_ne (other : ch ≠ '\n') : ends.spell ch = [ch] := by
  cases ends with
  | kept => rfl
  | paired => exact if_neg other

/-- A line feed is written as it is, or behind a carriage return. -/
theorem spell_feed : ends.spell '\n' = ['\n'] ∨ ends.spell '\n' = ['\r', '\n'] := by
  cases ends with
  | kept => exact .inl rfl
  | paired => exact .inr rfl

/-- A character is never left out. -/
theorem length_spell_pos : 0 < (ends.spell ch).length := by
  by_cases feed : ch = '\n'
  · subst feed
    rcases ends.spell_feed with spelled | spelled <;> simp [spelled]
  · simp [spell_of_ne feed]

theorem write_cons_of_ne (other : ch ≠ '\n') : ends.write (ch :: cs) = ch :: ends.write cs := by
  rw [write_cons, spell_of_ne other, List.singleton_append]

/-- A text in which no line ends is written as it is. -/
theorem write_of_inLine (inLine : InLine cs) : ends.write cs = cs := by
  induction cs with
  | nil => rfl
  | cons ch cs ih =>
      obtain ⟨here, behind⟩ := inLine_cons.mp inLine
      rw [write_cons_of_ne (ne_feed_of_isLineEnd here), ih behind]

@[simp] theorem write_eq_nil_iff : ends.write cs = [] ↔ cs = [] := by
  cases cs with
  | nil => simp
  | cons ch cs =>
      by_cases feed : ch = '\n'
      · subst feed
        rw [write_cons]
        rcases ends.spell_feed with spelled | spelled <;> simp [spelled]
      · simp [write_cons_of_ne feed]

@[simp] theorem reach_zero : ends.reach cs 0 = 0 := rfl

theorem reach_cons_succ :
    ends.reach (ch :: cs) (n + 1) = (ends.spell ch).length + ends.reach cs n := by
  rw [reach, List.take_succ_cons, write_cons, List.length_append, reach]

theorem reach_cons_succ_of_ne (other : ch ≠ '\n') :
    ends.reach (ch :: cs) (n + 1) = ends.reach cs n + 1 := by
  rw [reach_cons_succ, spell_of_ne other, List.length_singleton, Nat.add_comm]

theorem reach_append_length :
    ends.reach (front ++ later) front.length = (ends.write front).length := by
  rw [reach, List.take_left]

/-- The characters of a line take as many characters as there are. -/
theorem reach_of_opens (opens : text <+: cs) (inLine : InLine text) :
    ends.reach cs text.length = text.length := by
  obtain ⟨later, rfl⟩ := opens
  rw [reach_append_length, write_of_inLine inLine]

theorem reach_add : ends.reach cs (m + n) = ends.reach cs m + ends.reach (cs.drop m) n := by
  rw [reach, List.take_add, write_append, List.length_append, reach, reach]

/-- All characters take as many characters as are written. -/
theorem reach_length : ends.reach cs cs.length = (ends.write cs).length := by
  rw [reach, List.take_length]

/-- A text is written again part by part. -/
theorem write_take_append_drop (cs : List Char) (n : Nat) :
    ends.write (cs.take n) ++ ends.write (cs.drop n) = ends.write cs := by
  rw [← write_append, List.take_append_drop]

theorem take_write : (ends.write cs).take (ends.reach cs n) = ends.write (cs.take n) := by
  rw [← write_take_append_drop cs n, reach, List.take_left]

theorem drop_write : (ends.write cs).drop (ends.reach cs n) = ends.write (cs.drop n) := by
  rw [← write_take_append_drop cs n, reach, List.drop_left]

/-! ## What a text says -/

theorem clean_append : ends.clean (front ++ later) = ends.clean front ++ ends.clean later := by
  cases ends with
  | kept => rfl
  | paired => exact List.filter_append ..

theorem clean_cons : ends.clean (ch :: cs) = ends.clean [ch] ++ ends.clean cs := by
  rw [← clean_append, List.singleton_append]

theorem clean_spell : ends.clean (ends.spell ch) = ends.clean [ch] := by
  cases ends with
  | kept => rfl
  | paired =>
      by_cases feed : ch = '\n'
      · subst feed
        rfl
      · rw [spell_of_ne feed]

/-- A text that is written again says the same. -/
theorem clean_write : ends.clean (ends.write cs) = ends.clean cs := by
  induction cs with
  | nil => rfl
  | cons ch cs ih =>
      rw [write_cons, clean_append, clean_spell, ih, ← clean_cons]

theorem plain_ofList (cs : List Char) :
    ends.plain (String.ofList cs) = String.ofList (ends.clean cs) := by
  rw [plain, String.toList_ofList]

theorem plain_ofList_write :
    ends.plain (String.ofList (ends.write cs)) = ends.plain (String.ofList cs) := by
  rw [plain_ofList, plain_ofList, clean_write]

/-! ## Tests on characters -/

theorem takeWhile_write (blind : LineBlind p) :
    (ends.write cs).takeWhile p = ends.write (cs.takeWhile p) := by
  induction cs with
  | nil => rfl
  | cons ch cs ih =>
      by_cases feed : ch = '\n'
      · subst feed
        rw [write_cons]
        cases passes : p '\n' with
        | true =>
            have passes' : p '\r' = true := blind.trans passes
            rw [List.takeWhile_cons_of_pos passes, write_cons]
            rcases ends.spell_feed with spelled | spelled <;>
              simp [spelled, passes, passes', ih]
        | false =>
            have fails' : p '\r' = false := blind.trans passes
            rw [List.takeWhile_cons_of_neg (by simp [passes])]
            rcases ends.spell_feed with spelled | spelled <;> simp [spelled, passes, fails']
      · rw [write_cons_of_ne feed]
        cases passes : p ch with
        | true =>
            rw [List.takeWhile_cons_of_pos passes, List.takeWhile_cons_of_pos passes,
              write_cons_of_ne feed, ih]
        | false =>
            rw [List.takeWhile_cons_of_neg (by simp [passes]),
              List.takeWhile_cons_of_neg (by simp [passes]), write_nil]

theorem dropWhile_write (blind : LineBlind p) :
    (ends.write cs).dropWhile p = ends.write (cs.dropWhile p) := by
  have whole := List.takeWhile_append_dropWhile (p := p) (l := ends.write cs)
  rw [takeWhile_write blind] at whole
  refine List.append_cancel_left (whole.trans ?_)
  rw [← write_append, List.takeWhile_append_dropWhile]

/-- What passes a test takes the characters that pass it. -/
theorem length_takeWhile_write (blind : LineBlind p) :
    ((ends.write cs).takeWhile p).length = ends.reach cs (cs.takeWhile p).length := by
  rw [takeWhile_write blind, reach, ← List.prefix_iff_eq_take.mp (List.takeWhile_prefix p)]

/-- What passes a test that no line end passes is the same. -/
theorem takeWhile_write_inLine (feed : p '\n' = false) (blind : LineBlind p) :
    (ends.write cs).takeWhile p = cs.takeWhile p := by
  rw [takeWhile_write blind, write_of_inLine (inLine_takeWhile feed blind)]

theorem reach_takeWhile_inLine (feed : p '\n' = false) (blind : LineBlind p) :
    ends.reach cs (cs.takeWhile p).length = (cs.takeWhile p).length :=
  reach_of_opens (List.takeWhile_prefix p) (inLine_takeWhile feed blind)

theorem all_write (blind : LineBlind p) : (ends.write cs).all p = cs.all p := by
  induction cs with
  | nil => rfl
  | cons ch cs ih =>
      rw [write_cons, List.all_append, ih, List.all_cons]
      by_cases feed : ch = '\n'
      · subst feed
        rcases ends.spell_feed with spelled | spelled <;>
          simp [spelled, show p '\r' = p '\n' from blind]
      · simp [spell_of_ne feed]

theorem map_head?_write (blind : LineBlind p) :
    (ends.write cs).head?.map p = cs.head?.map p := by
  cases cs with
  | nil => rfl
  | cons ch cs =>
      by_cases feed : ch = '\n'
      · subst feed
        rw [write_cons]
        rcases ends.spell_feed with spelled | spelled <;>
          simp [spelled, show p '\r' = p '\n' from blind]
      · rw [write_cons_of_ne feed]
        rfl

theorem head?_write_eq_some_iff (inLine : isLineEnd ch = false) :
    (ends.write cs).head? = some ch ↔ cs.head? = some ch := by
  obtain ⟨noFeed, noReturn⟩ := isLineEnd_eq_false_iff.mp inLine
  cases cs with
  | nil => rfl
  | cons first cs =>
      by_cases feed : first = '\n'
      · subst feed
        rw [write_cons]
        rcases ends.spell_feed with spelled | spelled <;>
          simp [spelled, noFeed.symm, noReturn.symm]
      · rw [write_cons_of_ne feed]
        rfl

theorem isPrefixOf_write (inLine : InLine text) :
    text.isPrefixOf (ends.write cs) = text.isPrefixOf cs := by
  induction text generalizing cs with
  | nil => simp
  | cons first text ih =>
      obtain ⟨here, behind⟩ := inLine_cons.mp inLine
      obtain ⟨noFeed, noReturn⟩ := isLineEnd_eq_false_iff.mp here
      cases cs with
      | nil => rfl
      | cons ch cs =>
          by_cases feed : ch = '\n'
          · subst feed
            rw [write_cons]
            rcases ends.spell_feed with spelled | spelled <;>
              simp [spelled, List.isPrefixOf, beq_false_of_ne noFeed, beq_false_of_ne noReturn]
          · rw [write_cons_of_ne feed, List.isPrefixOf, List.isPrefixOf, ih behind]

/-! ## What the readers of markup see -/

/-- What goes over both characters of a line end goes over the line end. -/
theorem tail_spell_feed
    {tail? : List Char → Option Nat}
    (skips : ∀ ch cs, isLineEnd ch = true → tail? (ch :: cs) = (tail? cs).map (· + 1)) :
    tail? (ends.spell '\n' ++ cs) = (tail? cs).map (· + (ends.spell '\n').length) := by
  rcases ends.spell_feed with spelled | spelled <;> rw [spelled]
  · exact skips '\n' cs rfl
  · rw [List.cons_append, List.singleton_append, skips '\r' _ rfl, skips '\n' _ rfl,
      Option.map_map]
    rfl

theorem blockCommentTail?_write :
    blockCommentTail? (ends.write cs) = (blockCommentTail? cs).map (ends.reach cs) := by
  have skips (ch : Char) (cs : List Char) (ended : isLineEnd ch = true) :
      blockCommentTail? (ch :: cs) = (blockCommentTail? cs).map (· + 1) := by
    apply blockCommentTail?_cons
    rintro ⟨rfl, -⟩
    cases ended
  fun_induction blockCommentTail? cs with
  | case1 => rfl
  | case2 rest =>
      rw [write_cons_of_ne (by decide), write_cons_of_ne (by decide), blockCommentTail?,
        Option.map_some, reach_cons_succ_of_ne (by decide), reach_cons_succ_of_ne (by decide),
        reach_zero]
  | case3 ch rest open_ ih =>
      rw [Option.map_map]
      by_cases feed : ch = '\n'
      · subst feed
        rw [write_cons, tail_spell_feed skips, ih, Option.map_map]
        refine congrArg (Option.map · _) (funext fun n => ?_)
        rw [Function.comp, Function.comp, reach_cons_succ, Nat.add_comm]
      · rw [write_cons_of_ne feed, blockCommentTail?_cons, ih, Option.map_map]
        · refine congrArg (Option.map · _) (funext fun n => ?_)
          rw [Function.comp, Function.comp, reach_cons_succ_of_ne feed]
        · rw [head?_write_eq_some_iff (by decide)]
          rintro ⟨star, slash⟩
          obtain ⟨more, rfl⟩ := List.head?_eq_some_iff.mp slash
          exact open_ more star rfl

theorem collapseBlanks_write {trimStart trimEnd started pending : Bool} :
    collapseBlanks trimStart trimEnd started pending (ends.write cs) =
      collapseBlanks trimStart trimEnd started pending cs := by
  induction cs generalizing started pending with
  | nil => rfl
  | cons ch cs ih =>
      by_cases feed : ch = '\n'
      · subst feed
        rw [write_cons]
        rcases ends.spell_feed with spelled | spelled <;>
          simp [spelled, collapseBlanks, isBlank, ih]
      · rw [write_cons_of_ne feed, collapseBlanks, collapseBlanks, ih, ih]

/-- Literal text has the same normal form. -/
theorem normalizeText_write {trimStart trimEnd : Bool} :
    normalizeText (ends.write cs) trimStart trimEnd = normalizeText cs trimStart trimEnd := by
  rw [normalizeText, normalizeText, all_write (by rfl), collapseBlanks_write]

theorem startsMarkup_cons_of_ne (other : ch ≠ '<') : startsMarkup (ch :: rest) = false := by
  rw [startsMarkup]
  intro behind same
  exact other (List.cons.inj same).1

theorem startsMarkup_write : startsMarkup (ends.write cs) = startsMarkup cs := by
  cases cs with
  | nil => rfl
  | cons ch rest =>
      by_cases feed : ch = '\n'
      · subst feed
        rw [write_cons]
        rcases ends.spell_feed with spelled | spelled <;> rw [spelled] <;> rfl
      · rw [write_cons_of_ne feed]
        by_cases tag : ch = '<'
        · subst tag
          rw [startsMarkup, startsMarkup, dropWhile_write (by rfl)]
          cases behind : rest.dropWhile isBlank with
          | nil => rfl
          | cons next more =>
              have visible : isBlank next = false := by
                have first := List.head?_dropWhile_not isBlank rest
                rw [behind] at first
                simpa using first
              rw [write_cons_of_ne (ne_feed_of_isLineEnd (isLineEnd_of_isBlank visible))]
        · rw [startsMarkup_cons_of_ne tag, startsMarkup_cons_of_ne tag]

theorem startsSpread_write : startsSpread (ends.write cs) = startsSpread cs := by
  rw [startsSpread, startsSpread, dropWhile_write (by rfl), isPrefixOf_write (by decide)]

theorem startsIdentifier_write : startsIdentifier (ends.write cs) = startsIdentifier cs := by
  have same := @map_head?_write ends cs isIdentifierStart rfl
  unfold startsIdentifier
  cases cs <;> cases written : ends.write _ <;> simp_all

theorem contentMark_at?_write (other : ch ≠ '\n') :
    ContentMark.at? ch (ends.write rest) = ContentMark.at? ch rest := by
  have slash := @head?_write_eq_some_iff ends '/' rest rfl
  have tag := @startsMarkup_write ends (ch :: rest)
  rw [write_cons_of_ne other] at tag
  simp only [ContentMark.at?, slash, tag]

/-- A run of literal text ends in front of the same mark. -/
theorem contentMark_next_write :
    ContentMark.next (ends.write cs) =
      (ends.reach cs (ContentMark.next cs).1, (ContentMark.next cs).2) := by
  induction cs with
  | nil => rfl
  | cons ch cs ih =>
      by_cases feed : ch = '\n'
      · subst feed
        have plain (ch : Char) (rest : List Char) (ended : isLineEnd ch = true) :
            ContentMark.at? ch rest = none := by
          refine ContentMark.at?_eq_none_iff.mpr ⟨?_, ?_⟩
          · rintro rfl
            cases ended
          · rintro rfl
            cases ended
        rw [write_cons, ContentMark.next, plain _ _ rfl]
        dsimp only
        rw [reach_cons_succ]
        rcases ends.spell_feed with spelled | spelled <;> rw [spelled]
        · rw [List.singleton_append, ContentMark.next, plain _ _ rfl, ih]
          simp [Nat.add_comm]
        · rw [List.cons_append, List.singleton_append, ContentMark.next, plain _ _ rfl,
            ContentMark.next, plain _ _ rfl, ih]
          simp only [List.length_cons, List.length_nil, Prod.mk.injEq, and_true]
          omega
      · rw [write_cons_of_ne feed, ContentMark.next, ContentMark.next,
          contentMark_at?_write feed]
        split
        · rfl
        · rw [ih]
          dsimp only
          rw [reach_cons_succ_of_ne feed]

/-- A point in a tag name that no segment follows is left. -/
theorem tagNameTail_read_point (stops : startsIdentifier cs = false) :
    TagNameTail.read ('.' :: cs) = ⟨[], false⟩ := by
  cases cs with
  | nil => rfl
  | cons ch rest =>
      have stops : ¬isIdentifierStart ch = true := Bool.eq_false_iff.mp stops
      rw [TagNameTail.read, if_neg stops]

/-- A tag name ends in front of a line end. -/
theorem tagNameTail_read_write : TagNameTail.read (ends.write cs) = TagNameTail.read cs := by
  have isNoPoint
      {ch : Char}
      {rest : List Char}
      (noPoint : ch = '.' → rest = [] → False)
      (noSegment : ∀ next more, ch = '.' → rest = next :: more → False) :
      ch ≠ '.' := by
    rintro rfl
    cases rest with
    | nil => exact noPoint rfl rfl
    | cons next more => exact noSegment next more rfl rfl
  fun_induction TagNameTail.read cs with
  | case1 => rfl
  | case2 =>
      rw [write_cons_of_ne (by decide)]
      rfl
  | case3 ch rest start ih =>
      have noFeed := ne_feed_of_isLineEnd (isLineEnd_of_passes start rfl rfl)
      rw [write_cons_of_ne (by decide), write_cons_of_ne noFeed, TagNameTail.read, if_pos start, ih]
  | case4 ch rest stops =>
      have stops' : startsIdentifier (ch :: rest) = false := Bool.eq_false_iff.mpr stops
      rw [write_cons_of_ne (by decide), tagNameTail_read_point]
      rw [startsIdentifier_write, stops']
  | case5 ch rest noPoint noSegment name ih =>
      have noFeed := ne_feed_of_isLineEnd (isLineEnd_of_passes name rfl rfl)
      rw [write_cons_of_ne noFeed, TagNameTail.read_cons (isNoPoint noPoint noSegment), if_pos name,
        ih]
  | case6 ch rest noPoint noSegment name =>
      by_cases feed : ch = '\n'
      · subst feed
        rw [write_cons]
        rcases ends.spell_feed with spelled | spelled <;> rw [spelled] <;>
          exact TagNameTail.read_cons (by decide)
      · rw [write_cons_of_ne feed, TagNameTail.read_cons (isNoPoint noPoint noSegment),
          if_neg name]

/-- A tag name stands in a line. -/
theorem inLine_text_read (cs : List Char) : InLine (TagNameTail.read cs).text := by
  have continues := TagNameTail.continuesTagName_text cs
  generalize (TagNameTail.read cs).text = text at continues
  induction continues with
  | nil => decide
  | char name _ ih => exact inLine_cons.mpr ⟨isLineEnd_of_passes name rfl rfl, ih⟩
  | point start _ ih =>
      exact inLine_cons.mpr ⟨rfl, inLine_cons.mpr ⟨isLineEnd_of_passes start rfl rfl, ih⟩⟩

end LineEnds
end EmbeddedMarkup
