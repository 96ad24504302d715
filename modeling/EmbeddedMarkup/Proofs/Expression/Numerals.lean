import EmbeddedMarkup.Proofs.Expression.Spelling

/-!
# Numerals

A decimal numeral is the longest text of its form that is ahead: digits and separators, a point with
digits and separators behind it unless another point follows, and an exponent with at least one
digit.  Without its separators it is the notation of a number, so reading it once more as a number
never fails.

A hexadecimal numeral takes all digits and separators behind its `0x`, and fails if there is no
digit among them or if its value is too large.
-/

namespace EmbeddedMarkup

variable {cs later digits run : List Char} {first ch marker : Char} {rest : List Char}
  {numeral longer : Numeral} {part : ExponentPart}

/-! ## The longest numeral -/

/-- How the exponent of a numeral is written, if it has one. -/
def Numeral.exponentText (numeral : Numeral) : List Char :=
  (numeral.exponent.map ExponentPart.text).getD []

/--
The parts are those of a numeral that is written in front of `later`, and its point, if it has one,
does not stand in front of another point.
-/
structure Numeral.StandsBefore (numeral : Numeral) (later : List Char) : Prop where
  wellFormed : numeral.WellFormed
  pointAlone : numeral.fraction ≠ none →
    (numeral.text ++ later)[numeral.whole.length + 1]? ≠ some '.'

/-- No numeral takes more of the text that this one and `later` make up. -/
def Numeral.IsLongestBefore (numeral : Numeral) (later : List Char) : Prop :=
  ∀ longer later', Numeral.StandsBefore longer later' →
    longer.text ++ later' = numeral.text ++ later → longer.text.length ≤ numeral.text.length

namespace Numeral

theorem text_eq (numeral : Numeral) :
    numeral.text = mantissaText numeral.whole numeral.fraction ++ numeral.exponentText := rfl

theorem text_of_fraction_eq_none (pointless : numeral.fraction = none) :
    numeral.text = numeral.whole ++ numeral.exponentText := by
  rw [text_eq, pointless, mantissaText]

theorem text_of_fraction_eq_some (pointed : numeral.fraction = some digits) :
    numeral.text = numeral.whole ++ '.' :: (digits ++ numeral.exponentText) := by
  rw [text_eq, pointed, mantissaText, List.append_assoc, List.cons_append]

/-- What is behind the point of a numeral does not start with a point. -/
theorem StandsBefore.head?_ne
    (stands : numeral.StandsBefore later)
    (pointed : numeral.fraction = some digits) :
    (digits ++ numeral.exponentText ++ later).head? ≠ some '.' := by
  have alone := stands.pointAlone (by simp [pointed])
  rw [text_of_fraction_eq_some pointed, List.append_assoc,
    List.getElem?_append_right (Nat.le_add_right _ _), Nat.add_sub_cancel_left, List.cons_append,
    List.getElem?_cons_succ, ← List.head?_eq_getElem?] at alone
  exact alone

theorem exponentText_of_eq_none (unmarked : numeral.exponent = none) :
    numeral.exponentText = [] := by
  rw [exponentText, unmarked]
  rfl

theorem exponentText_of_eq_some (marked : numeral.exponent = some part) :
    numeral.exponentText = part.text := by
  rw [exponentText, marked]
  rfl

/-- An exponent starts with its marker. -/
theorem exponentText_cons
    (wellFormed : numeral.WellFormed)
    (marked : numeral.exponent = some part) :
    ∃ marker behind, (marker = 'e' ∨ marker = 'E') ∧ numeral.exponentText = marker :: behind :=
  ⟨_, _, (wellFormed.exponent part marked).marker, exponentText_of_eq_some marked⟩

theorem exponentText_head?
    (wellFormed : numeral.WellFormed)
    (ahead : numeral.exponentText.head? = some ch) :
    ch = 'e' ∨ ch = 'E' := by
  cases exponent : numeral.exponent with
  | none =>
      rw [exponentText_of_eq_none exponent] at ahead
      cases ahead
  | some part =>
      obtain ⟨marker, behind, marks, split⟩ := exponentText_cons wellFormed exponent
      rw [split] at ahead
      cases ahead
      exact marks

theorem length_whole_le_mantissaText (whole : List Char) (fraction : Option (List Char)) :
    whole.length ≤ (mantissaText whole fraction).length := by
  cases fraction with
  | none => exact Nat.le_refl _
  | some digits =>
      rw [mantissaText, List.length_append]
      exact Nat.le_add_right _ _

/-- In front of its exponent nothing is added to a numeral. -/
theorem takeWhile_exponentText
    (wellFormed : numeral.WellFormed)
    (marked : numeral.exponent = some part) :
    (numeral.exponentText ++ later).takeWhile isDecimalChar = [] := by
  obtain ⟨marker, behind, rfl | rfl, split⟩ := exponentText_cons wellFormed marked
  all_goals
    rw [split]
    rfl

theorem readFraction?_exponentText
    (wellFormed : numeral.WellFormed)
    (marked : numeral.exponent = some part) :
    readFraction? (numeral.exponentText ++ later) = none := by
  obtain ⟨marker, behind, rfl | rfl, split⟩ := exponentText_cons wellFormed marked
  all_goals
    rw [split]
    rfl

/-- The digits of a numeral without a point are all read, and perhaps more. -/
theorem whole_read_of_fraction_eq_none
    (wellFormed : numeral.WellFormed)
    (pointless : numeral.fraction = none) :
    (read (numeral.text ++ later)).whole =
      numeral.whole ++ (numeral.exponentText ++ later).takeWhile isDecimalChar := by
  rw [text_of_fraction_eq_none pointless, List.append_assoc]
  exact List.takeWhile_append_of_pos wellFormed.whole

/-- What a numeral with a point has in front of its exponent is all read, and perhaps more. -/
theorem read_of_fraction_eq_some
    (stands : numeral.StandsBefore later)
    (pointed : numeral.fraction = some digits) :
    (read (numeral.text ++ later)).whole = numeral.whole ∧
      (read (numeral.text ++ later)).fraction =
        some (digits ++ (numeral.exponentText ++ later).takeWhile isDecimalChar) := by
  have split : numeral.text ++ later =
      numeral.whole ++ '.' :: (digits ++ numeral.exponentText ++ later) := by
    rw [text_of_fraction_eq_some pointed, List.append_assoc, List.cons_append]
  have whole : (numeral.text ++ later).takeWhile isDecimalChar = numeral.whole := by
    rw [split]
    apply takeWhile_append_of_head? stands.wellFormed.whole
    intro ch point
    cases point
    rfl
  refine ⟨whole, ?_⟩
  simp only [read]
  rw [whole, split, List.drop_left, readFraction?, if_neg (stands.head?_ne pointed),
    List.append_assoc, List.takeWhile_append_of_pos (stands.wellFormed.fraction digits pointed)]

/-- Of a numeral without an exponent nothing is left out where a numeral is read. -/
theorem length_text_le_of_exponent_eq_none
    (stands : numeral.StandsBefore later)
    (unmarked : numeral.exponent = none) :
    numeral.text.length ≤ (read (numeral.text ++ later)).text.length := by
  have mantissa : numeral.text.length ≤ (mantissaText (read (numeral.text ++ later)).whole
      (read (numeral.text ++ later)).fraction).length := by
    cases fraction : numeral.fraction with
    | none =>
        have whole := @whole_read_of_fraction_eq_none later _ stands.wellFormed fraction
        refine Nat.le_trans ?_ (length_whole_le_mantissaText _ _)
        rw [whole, text_of_fraction_eq_none fraction, exponentText_of_eq_none unmarked,
          List.append_nil, List.length_append]
        exact Nat.le_add_right _ _
    | some digits =>
        obtain ⟨whole, behind⟩ := read_of_fraction_eq_some stands fraction
        rw [whole, behind, text_of_fraction_eq_some fraction, exponentText_of_eq_none unmarked,
          mantissaText]
        simp only [List.length_append, List.length_cons, List.append_nil]
        omega
  rw [text_eq (read _), List.length_append]
  exact Nat.le_add_right_of_le mantissa

/-- What a numeral with an exponent has in front of it is read as it is written. -/
theorem mantissaText_read
    (stands : numeral.StandsBefore later)
    (marked : numeral.exponent = some part) :
    mantissaText (read (numeral.text ++ later)).whole (read (numeral.text ++ later)).fraction =
      mantissaText numeral.whole numeral.fraction := by
  have wellFormed := stands.wellFormed
  cases fraction : numeral.fraction with
  | none =>
      have whole : (read (numeral.text ++ later)).whole = numeral.whole := by
        rw [whole_read_of_fraction_eq_none wellFormed fraction,
          takeWhile_exponentText wellFormed marked, List.append_nil]
      have behind : (read (numeral.text ++ later)).fraction = none := by
        have split : numeral.text ++ later =
            numeral.whole ++ (numeral.exponentText ++ later) := by
          rw [text_of_fraction_eq_none fraction, List.append_assoc]
        have dropped : (read (numeral.text ++ later)).fraction = readFraction?
            ((numeral.text ++ later).drop (read (numeral.text ++ later)).whole.length) := rfl
        rw [dropped, whole, split, List.drop_left, readFraction?_exponentText wellFormed marked]
      rw [whole, behind]
  | some digits =>
      obtain ⟨whole, behind⟩ := read_of_fraction_eq_some stands fraction
      rw [whole, behind, takeWhile_exponentText wellFormed marked, List.append_nil]

/-- Of a numeral with an exponent nothing is left out where a numeral is read. -/
theorem length_text_le_of_exponent_eq_some
    (stands : numeral.StandsBefore later)
    (marked : numeral.exponent = some part) :
    numeral.text.length ≤ (read (numeral.text ++ later)).text.length := by
  have mantissa := mantissaText_read stands marked
  have exponent : (read (numeral.text ++ later)).exponent =
      some { part with digits := part.digits ++ later.takeWhile Char.isDigit } := by
    have dropped : (read (numeral.text ++ later)).exponent = ExponentPart.read?
        ((numeral.text ++ later).drop (mantissaText (read (numeral.text ++ later)).whole
          (read (numeral.text ++ later)).fraction).length) := rfl
    rw [dropped, mantissa, text_eq, List.append_assoc, List.drop_left,
      exponentText_of_eq_some marked,
      ExponentPart.read?_text_append (stands.wellFormed.exponent part marked)]
  rw [text_eq (read _), mantissa, exponentText_of_eq_some exponent, text_eq numeral,
    exponentText_of_eq_some marked]
  simp only [ExponentPart.text, List.length_append, List.length_cons]
  omega

/-- What is read is a numeral in front of the characters behind it. -/
theorem standsBefore_read (ahead : (read cs).text ++ later = cs) :
    (read cs).StandsBefore later := by
  refine ⟨wellFormed_read cs, fun pointed => ?_⟩
  obtain ⟨digits, fraction⟩ := Option.ne_none_iff_exists'.mp pointed
  have found : readFraction? (cs.drop (read cs).whole.length) = some digits := fraction
  have point : cs.drop (read cs).whole.length = '.' :: cs.drop ((read cs).whole.length + 1) ∧
      (cs.drop ((read cs).whole.length + 1)).head? ≠ some '.' := by
    unfold readFraction? at found
    split at found
    · rename_i behind split
      split at found
      · cases found
      · rename_i alone
        have next : cs.drop ((read cs).whole.length + 1) = behind := by
          rw [← List.drop_drop, split, List.drop_one, List.tail_cons]
        exact ⟨split.trans (congrArg _ next.symm), next ▸ alone⟩
    · cases found
  rw [ahead, ← List.head?_drop]
  exact point.2

/-- What is read is the longest numeral. -/
theorem isLongestBefore_read (ahead : (read cs).text ++ later = cs) :
    (read cs).IsLongestBefore later := by
  intro longer later' stands same
  rw [ahead] at same
  subst same
  cases exponent : longer.exponent with
  | none => exact length_text_le_of_exponent_eq_none stands exponent
  | some part => exact length_text_le_of_exponent_eq_some stands exponent

end Numeral

/-! ## Reading once more -/

/-- Digits throughout. -/
def AllDigits (text : List Char) : Prop :=
  ∀ ch ∈ text, ch.isDigit = true

theorem withoutSeparators_append (first later : List Char) :
    withoutSeparators (first ++ later) = withoutSeparators first ++ withoutSeparators later :=
  List.filter_append ..

theorem ne_of_isDigit
    {other : Char}
    (digit : ch.isDigit = true)
    (no_digit : other.isDigit = false) :
    ch ≠ other := by
  rintro rfl
  rw [digit] at no_digit
  cases no_digit

/-- Without their separators digits are left. -/
theorem allDigits_withoutSeparators (decimal : ∀ ch ∈ run, isDecimalChar ch = true) :
    AllDigits (withoutSeparators run) := by
  intro ch member
  obtain ⟨inside, other⟩ := List.mem_filter.mp member
  have either := decimal ch inside
  simp only [isDecimalChar, Bool.or_eq_true, beq_iff_eq] at either
  rcases either with digit | rfl
  · exact digit
  · cases other

theorem naturalOfText?_of_allDigits (nonempty : digits ≠ []) (areDigits : AllDigits digits) :
    naturalOfText? digits = some (digitsValue 10 digits) := by
  have all : digits.all Char.isDigit = true := List.all_eq_true.mpr areDigits
  simp [naturalOfText?, nonempty, all]

/-- Without a sign an integer is a natural number. -/
theorem integerOfText?_of_allDigits (nonempty : digits ≠ []) (areDigits : AllDigits digits) :
    integerOfText? digits = some (digitsValue 10 digits : Int) := by
  have natural := naturalOfText?_of_allDigits nonempty areDigits
  unfold integerOfText?
  split
  · cases areDigits '-' List.mem_cons_self
  · cases areDigits '+' List.mem_cons_self
  · rw [natural]
    rfl

namespace ExponentPart

/-- The sign and the digits of an exponent are read once more as its value. -/
theorem integerOfText?_text (wellFormed : part.WellFormed) :
    integerOfText? (part.sign.toList ++ part.digits) = some part.value := by
  have natural := naturalOfText?_of_allDigits wellFormed.nonempty wellFormed.digits
  cases signed : part.sign with
  | none =>
      rw [Option.toList_none, List.nil_append,
        integerOfText?_of_allDigits wellFormed.nonempty wellFormed.digits, value, signed]
      rfl
  | some sign =>
      have either := wellFormed.sign sign signed
      simp only [Bool.or_eq_true, beq_iff_eq] at either
      rcases either with rfl | rfl
      · rw [Option.toList_some, List.singleton_append, integerOfText?, natural, value, signed]
        rfl
      · rw [Option.toList_some, List.singleton_append, integerOfText?, natural, value, signed]
        rfl

/-- An exponent has no separators. -/
theorem withoutSeparators_text (wellFormed : part.WellFormed) :
    withoutSeparators part.text = part.text := by
  refine List.filter_eq_self.mpr fun ch member => bne_iff_ne.mpr ?_
  rcases List.mem_cons.mp member with rfl | member
  · rcases wellFormed.marker with lower | upper
    · rw [lower]
      decide
    · rw [upper]
      decide
  · rcases List.mem_append.mp member with sign | digit
    · have either := wellFormed.sign ch (Option.mem_toList.mp sign)
      simp only [Bool.or_eq_true, beq_iff_eq] at either
      rcases either with rfl | rfl <;> decide
    · exact ne_of_isDigit (wellFormed.digits ch digit) rfl

end ExponentPart

namespace Numeral

/-- A numeral without its separators. -/
def plain (numeral : Numeral) : Numeral where
  whole := withoutSeparators numeral.whole
  fraction := numeral.fraction.map withoutSeparators
  exponent := numeral.exponent

/-- The digits of a numeral in front of its exponent. -/
def mantissaDigits (numeral : Numeral) : List Char :=
  withoutSeparators numeral.whole ++ withoutSeparators (numeral.fraction.getD [])

theorem exponentText_plain : numeral.plain.exponentText = numeral.exponentText := rfl

theorem withoutSeparators_exponentText (wellFormed : numeral.WellFormed) :
    withoutSeparators numeral.exponentText = numeral.exponentText := by
  cases exponent : numeral.exponent with
  | none =>
      rw [exponentText_of_eq_none exponent]
      rfl
  | some part =>
      rw [exponentText_of_eq_some exponent,
        ExponentPart.withoutSeparators_text (wellFormed.exponent part exponent)]

/-- The text of a numeral without its separators is that of the numeral without them. -/
theorem withoutSeparators_text (wellFormed : numeral.WellFormed) :
    withoutSeparators numeral.text = numeral.plain.text := by
  rw [text_eq, withoutSeparators_append, withoutSeparators_exponentText wellFormed, text_eq,
    exponentText_plain]
  cases fraction : numeral.fraction with
  | none => rw [plain, fraction, mantissaText, Option.map_none, mantissaText]
  | some digits =>
      rw [plain, fraction, mantissaText, Option.map_some, mantissaText, withoutSeparators_append]
      rfl

theorem allDigits_mantissaDigits (wellFormed : numeral.WellFormed) :
    AllDigits numeral.mantissaDigits := by
  intro ch member
  rcases List.mem_append.mp member with whole | behind
  · exact allDigits_withoutSeparators wellFormed.whole ch whole
  · cases fraction : numeral.fraction with
    | none =>
        rw [fraction] at behind
        cases behind
    | some digits =>
        rw [fraction] at behind
        exact allDigits_withoutSeparators (wellFormed.fraction digits fraction) ch behind

/-- Without separators there are digits and a point in front of the exponent. -/
theorem eq_or_isDigit_of_mem_mantissaText
    (wellFormed : numeral.WellFormed)
    (member : ch ∈ mantissaText numeral.plain.whole numeral.plain.fraction) :
    ch = '.' ∨ ch.isDigit = true := by
  have digits := allDigits_mantissaDigits wellFormed
  rw [plain] at member
  cases fraction : numeral.fraction with
  | none =>
      rw [fraction, Option.map_none, mantissaText] at member
      exact .inr (digits ch (List.mem_append_left _ member))
  | some behind =>
      rw [fraction, Option.map_some, mantissaText, List.mem_append, List.mem_cons] at member
      rcases member with whole | point | inside
      · exact .inr (digits ch (List.mem_append_left _ whole))
      · exact .inl point
      · refine .inr (digits ch (List.mem_append_right _ ?_))
        rw [fraction]
        exact inside

/-- The text in front of the exponent is told by where a marker is found. -/
theorem takeWhile_text_plain (wellFormed : numeral.WellFormed) :
    (numeral.plain.text).takeWhile (fun c => c != 'e' && c != 'E') =
      mantissaText numeral.plain.whole numeral.plain.fraction := by
  rw [text_eq, exponentText_plain]
  apply takeWhile_append_of_head?
  · intro ch member
    rcases eq_or_isDigit_of_mem_mantissaText wellFormed member with rfl | digit
    · rfl
    · simp [ne_of_isDigit digit (rfl : 'e'.isDigit = false),
        ne_of_isDigit digit (rfl : 'E'.isDigit = false)]
  · intro ch ahead
    rcases exponentText_head? wellFormed ahead with rfl | rfl <;> rfl

/-- The parts in front of the exponent are told by where a point is found. -/
theorem takeWhile_mantissaText_plain (wellFormed : numeral.WellFormed) :
    (mantissaText numeral.plain.whole numeral.plain.fraction).takeWhile (· != '.') =
        numeral.plain.whole ∧
      (mantissaText numeral.plain.whole numeral.plain.fraction).drop
          (numeral.plain.whole.length + 1) =
        withoutSeparators (numeral.fraction.getD []) := by
  have pointless : ∀ ch ∈ numeral.plain.whole, (ch != '.') = true := by
    intro ch member
    have digit := allDigits_withoutSeparators wellFormed.whole ch member
    exact bne_iff_ne.mpr (ne_of_isDigit digit rfl)
  cases fraction : numeral.fraction with
  | none =>
      have mantissa : numeral.plain.fraction = none := by
        rw [plain, fraction, Option.map_none]
      rw [mantissa, mantissaText, takeWhile_eq_self pointless]
      exact ⟨rfl, List.drop_of_length_le (Nat.le_succ _)⟩
  | some behind =>
      have mantissa : numeral.plain.fraction = some (withoutSeparators behind) := by
        rw [plain, fraction, Option.map_some]
      rw [mantissa, mantissaText]
      refine ⟨takeWhile_append_of_head? pointless ?_, ?_⟩
      · intro ch point
        cases point
        rfl
      · rw [← List.drop_drop, List.drop_left]
        rfl

/-- Without its separators a numeral with a digit is the notation of its value. -/
theorem ofText?_withoutSeparators
    (wellFormed : numeral.WellFormed)
    (some_digit : numeral.mantissaDigits ≠ []) :
    Decimal.ofText? (withoutSeparators numeral.text) = some numeral.value := by
  have mantissa := takeWhile_text_plain wellFormed
  obtain ⟨whole, fraction⟩ := takeWhile_mantissaText_plain wellFormed
  have natural : naturalOfText?
      (numeral.plain.whole ++ withoutSeparators (numeral.fraction.getD [])) =
      some (digitsValue 10 numeral.mantissaDigits) :=
    naturalOfText?_of_allDigits some_digit (allDigits_mantissaDigits wellFormed)
  have exponent : exponentOfText? numeral.exponentText =
      some ((numeral.exponent.map ExponentPart.value).getD 0) := by
    cases found : numeral.exponent with
    | none =>
        rw [exponentText_of_eq_none found]
        rfl
    | some part =>
        rw [exponentText_of_eq_some found, ExponentPart.text]
        exact ExponentPart.integerOfText?_text (wellFormed.exponent part found)
  have behind : numeral.plain.text.drop
      (mantissaText numeral.plain.whole numeral.plain.fraction).length =
      numeral.exponentText := by
    rw [text_eq, exponentText_plain, List.drop_left]
  rw [withoutSeparators_text wellFormed]
  unfold Decimal.ofText?
  dsimp only
  rw [mantissa, whole, fraction, natural, behind, exponent]
  rfl

/-- Where a numeral starts, there is a digit in front of its exponent. -/
theorem mantissaDigits_read_ne_nil (starts : LexemeReading.startsNumeral first rest = true) :
    (read (first :: rest)).mantissaDigits ≠ [] := by
  have kept (ch : Char) (digit : ch.isDigit = true) (cs : List Char) :
      ch ∈ withoutSeparators ((ch :: cs).takeWhile isDecimalChar) := by
    refine List.mem_filter.mpr ⟨?_, bne_iff_ne.mpr (ne_of_isDigit digit rfl)⟩
    rw [List.takeWhile_cons_of_pos (by simp [isDecimalChar, digit])]
    exact List.mem_cons_self
  simp only [LexemeReading.startsNumeral, Bool.or_eq_true, Bool.and_eq_true, beq_iff_eq] at starts
  rcases starts with digit | ⟨rfl, behind⟩
  · exact List.ne_nil_of_mem (List.mem_append_left _ (kept first digit rest))
  · cases rest with
    | nil => cases behind
    | cons next rest =>
        have digit : next.isDigit = true := behind
        have fraction : (read ('.' :: next :: rest)).fraction =
            some ((next :: rest).takeWhile isDecimalChar) := by
          simp [read, isDecimalChar, readFraction?, ne_of_isDigit digit (rfl : '.'.isDigit = false)]
        have member : next ∈ withoutSeparators
            ((read ('.' :: next :: rest)).fraction.getD []) := by
          rw [fraction]
          exact kept next digit rest
        exact List.ne_nil_of_mem (List.mem_append_right _ member)

/--
What a numeral is read as: an integer if it has neither a point nor an exponent and its value is
less than `2 ^ 63`, and a double otherwise.
-/
def lexeme (numeral : Numeral) : Lexeme :=
  let value := digitsValue 10 (withoutSeparators numeral.text)
  if numeral.fraction = none ∧ numeral.exponent = none ∧ value < Nat.pow 2 63 then .int value
  else .float (Double.ofDecimal numeral.value)

/-- Without a point and an exponent a numeral is the notation of a natural number. -/
theorem naturalOfText?_withoutSeparators
    (wellFormed : numeral.WellFormed)
    (some_digit : numeral.mantissaDigits ≠ [])
    (pointless : numeral.fraction = none)
    (unmarked : numeral.exponent = none) :
    naturalOfText? (withoutSeparators numeral.text) =
      some (digitsValue 10 (withoutSeparators numeral.text)) := by
  have digits : withoutSeparators numeral.text = numeral.mantissaDigits := by
    rw [text_of_fraction_eq_none pointless, exponentText_of_eq_none unmarked, List.append_nil,
      mantissaDigits, pointless]
    exact (List.append_nil _).symm
  rw [digits]
  exact naturalOfText?_of_allDigits some_digit (allDigits_mantissaDigits wellFormed)

theorem isWhole_iff :
    numeral.isWhole = true ↔ numeral.fraction = none ∧ numeral.exponent = none := by
  rw [isWhole, Bool.and_eq_true, Option.isNone_iff_eq_none, Option.isNone_iff_eq_none]

end Numeral

theorem le_greatestInt_iff {value : Nat} : value ≤ greatestInt ↔ value < Nat.pow 2 63 := by
  have bound : greatestInt + 1 = Nat.pow 2 63 := by decide
  omega

namespace LexemeReading

/-- A decimal numeral is read without a failure. -/
theorem decimal_eq_found (starts : startsNumeral first rest = true) :
    decimal (first :: rest) =
      found (Numeral.read (first :: rest)).lexeme (Numeral.read (first :: rest)).text.length := by
  have some_digit := Numeral.mantissaDigits_read_ne_nil starts
  have wellFormed := Numeral.wellFormed_read (first :: rest)
  have number := Numeral.ofText?_withoutSeparators wellFormed some_digit
  unfold decimal Numeral.lexeme
  dsimp only
  rw [number]
  by_cases whole : (Numeral.read (first :: rest)).isWhole = true
  · obtain ⟨pointless, unmarked⟩ := Numeral.isWhole_iff.mp whole
    rw [if_pos whole, Numeral.naturalOfText?_withoutSeparators wellFormed some_digit pointless
      unmarked, Option.filter_some]
    by_cases small : digitsValue 10 (withoutSeparators (Numeral.read (first :: rest)).text) <
        Nat.pow 2 63
    · rw [if_pos (decide_eq_true (le_greatestInt_iff.mpr small)),
        if_pos ⟨pointless, unmarked, small⟩]
    · rw [if_neg (by rwa [decide_eq_true_eq, le_greatestInt_iff]),
        if_neg fun all => small all.2.2]
  · rw [if_neg whole, if_neg fun all => whole (Numeral.isWhole_iff.mpr ⟨all.1, all.2.1⟩)]
    rfl

end LexemeReading

/-! ## Hexadecimal numerals -/

/-- A digit of a hexadecimal numeral, or a separator. -/
def isHexChar (ch : Char) : Bool :=
  isHexDigit ch || ch == '_'

/-- The run is made of hexadecimal digits and separators, and none of them follows it. -/
structure IsHexadecimalRun (run later : List Char) : Prop where
  chars : ∀ ch ∈ run, isHexChar ch = true
  ends : ∀ ch, later.head? = some ch → isHexChar ch = false

theorem IsHexadecimalRun.readHexadecimalRun (isRun : IsHexadecimalRun run later) :
    readHexadecimalRun (run ++ later) = run :=
  takeWhile_append_of_head? isRun.chars isRun.ends

theorem isHexadecimalRun_readHexadecimalRun (cs : List Char) :
    IsHexadecimalRun (readHexadecimalRun cs) (cs.dropWhile isHexChar) where
  chars := forall_mem_takeWhile _ _
  ends := by
    intro ch ahead
    have stops := List.head?_dropWhile_not isHexChar cs
    rw [ahead] at stops
    simpa using stops

/-- Without its separators a run is empty if there is no digit in it. -/
theorem withoutSeparators_eq_nil_iff (chars : ∀ ch ∈ run, isHexChar ch = true) :
    withoutSeparators run = [] ↔ run.any isHexDigit = false := by
  rw [withoutSeparators, List.filter_eq_nil_iff, List.any_eq_false]
  refine forall₂_congr fun ch member => not_congr ?_
  rw [bne_iff_ne]
  constructor
  · intro other
    have either := chars ch member
    rw [isHexChar, Bool.or_eq_true, beq_iff_eq] at either
    exact either.resolve_right other
  · rintro digit rfl
    cases digit

/-- A hexadecimal numeral takes its whole run, and fails without a digit or for a large value. -/
theorem LexemeReading.hexadecimal_eq (isRun : IsHexadecimalRun run later) :
    hexadecimal marker (run ++ later) =
      if run.any isHexDigit = true ∧ digitsValue 16 (withoutSeparators run) < Nat.pow 2 63 then
        found (.int (digitsValue 16 (withoutSeparators run))) (run.length + 2)
      else failed (.invalidNumber (String.ofList ('0' :: marker :: run))) (run.length + 2) := by
  unfold hexadecimal
  dsimp only
  rw [isRun.readHexadecimalRun]
  have fails : ((withoutSeparators run).isEmpty ||
      decide (greatestInt < digitsValue 16 (withoutSeparators run))) = true ↔
      ¬(run.any isHexDigit = true ∧
        digitsValue 16 (withoutSeparators run) < Nat.pow 2 63) := by
    rw [Bool.or_eq_true, List.isEmpty_iff, withoutSeparators_eq_nil_iff isRun.chars,
      decide_eq_true_eq, ← Nat.not_le, le_greatestInt_iff, Classical.not_and_iff_not_or_not,
      Bool.not_eq_true]
  by_cases reads : run.any isHexDigit = true ∧
      digitsValue 16 (withoutSeparators run) < Nat.pow 2 63
  · rw [if_pos reads, if_neg fun failed => fails.mp failed reads]
  · rw [if_neg reads, if_pos (fails.mpr reads)]

end EmbeddedMarkup
