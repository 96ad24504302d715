import EmbeddedMarkup.Proofs.HostText.Boundaries

/-!
# What opaque tokens hold does not matter

An opaque token may be exchanged for another one that opens alike.  The loop of a scanner comes to
the token as before, and behind it the scanner finds the same, at positions that are moved as the
text behind the token is.
-/

namespace EmbeddedMarkup

open Cursor

/-- What is found where the text in front of `first` has been exchanged for that of `first'`. -/
def HostFinding.moved (first first' : Position) : HostFinding → HostFinding
  | .ok found => .ok (found.map (Cursor.moved first first'))
  | .error fault => .error ⟨fault.cause, Position.moved first first' fault.position⟩

namespace HostScanner

variable {scanner other target : HostScanner} {c c' : Cursor} {first : Char} {rest : List Char}
  {start : Bool}

/-! ## What is found in one run -/

/--
What a scanner finds one after the other.  Behind markup it resumes as many characters further on as
`strides` tells, one stride for each markup.
-/
def findings (scanner : HostScanner) : List Nat → List HostFinding
  | [] => [scanner.next.1]
  | stride :: strides =>
      match scanner.next with
      | (.ok (some start), stopped) =>
          .ok (some start) :: findings (stopped.resume (start.advanceBy stride)) strides
      | (finding, _) => [finding]

theorem findings_cons (scanner : HostScanner) (stride : Nat) (strides : List Nat) :
    scanner.findings (stride :: strides) =
      match scanner.next.1 with
      | .ok (some start) =>
          .ok (some start) :: findings ⟨start.advanceBy stride, false⟩ strides
      | finding => [finding] := by
  rw [findings]
  rcases scanner.next with ⟨_ | _ | _, _⟩ <;> rfl

/-- What is found next decides what is found in all. -/
theorem findings_congr (same : scanner.next.1 = other.next.1) (strides : List Nat) :
    scanner.findings strides = other.findings strides := by
  cases strides with
  | nil => rw [findings, findings, same]
  | cons stride strides => rw [findings_cons, findings_cons, same]

/-- Scanners in front of the same characters find the same in all. -/
theorem findsAlike_findings
    {R : Position → Position → Prop}
    (steady : IsSteady R)
    (alike : c.Alike R c')
    (strides : List Nat) :
    List.Forall₂ (FindsAlike R) (findings ⟨c, start⟩ strides) (findings ⟨c', start⟩ strides) := by
  induction strides generalizing c c' start with
  | nil => exact .cons (findsAlike_next steady alike rfl) .nil
  | cons stride strides ih =>
      have next := @findsAlike_next ⟨c, start⟩ R ⟨c', start⟩ steady alike rfl
      rw [findings_cons, findings_cons]
      generalize (HostScanner.next ⟨c, start⟩).1 = found at next ⊢
      generalize (HostScanner.next ⟨c', start⟩).1 = found' at next ⊢
      cases next with
      | ended => exact .cons .ended .nil
      | found alike => exact .cons (.found alike) (ih (alike.advanceBy steady stride))
      | fault related => exact .cons (.fault related) .nil

/-- Behind different texts the same is found, at positions that are moved. -/
theorem findings_moved
    (same : c'.rest = c.rest)
    (strides : List Nat) :
    findings ⟨c', start⟩ strides =
      (findings ⟨c, start⟩ strides).map (HostFinding.moved c.position c'.position) := by
  have steady : IsSteady fun place place' =>
      c.position.Precedes place ∧ place' = Position.moved c.position c'.position place := by
    rintro place _ ch following ⟨precedes, rfl⟩
    exact ⟨precedes.past ch following, precedes.past_moved ch following⟩
  have alike : c.Alike (fun place place' =>
      c.position.Precedes place ∧ place' = Position.moved c.position c'.position place) c' :=
    ⟨same, Position.precedes_self _, (Position.moved_start _ _).symm⟩
  have finds := @findsAlike_findings c c' start _ steady alike strides
  generalize findings ⟨c, start⟩ strides = found at finds ⊢
  generalize findings ⟨c', start⟩ strides = found' at finds ⊢
  induction finds with
  | nil => rfl
  | cons here _ ih =>
      rw [List.map_cons, ih]
      congr 1
      cases here with
      | ended => rfl
      | @found start start' alike =>
          obtain ⟨rest, place⟩ := start'
          obtain ⟨rfl, -, rfl⟩ := alike
          rfl
      | fault related =>
          obtain ⟨-, rfl⟩ := related
          rfl

/-! ## Turns of the loop -/

/--
A turn of the loop in which a scanner goes through a text: blank space is skipped, a unit is passed
over, or the scanner resumes behind markup that it has found.
-/
inductive Turn : HostScanner → HostScanner → Prop
  | blanks {c : Cursor} {start : Bool} : Turn ⟨c, start⟩ ⟨c.skipBlanks, start⟩
  | unit {c : Cursor} {start : Bool} {first : Char} {rest : List Char} {unit : HostUnit} :
      c.rest = first :: rest →
      isBlank first = false →
      hostAhead start first rest = .pass unit →
      Turn ⟨c, start⟩ ⟨c.advanceBy (unit.tail + 1), unit.expressionNext⟩
  | markup {c : Cursor} {start : Bool} {first : Char} {rest : List Char} {stride : Nat} :
      c.rest = first :: rest →
      isBlank first = false →
      hostAhead start first rest = .markup →
      Turn ⟨c, start⟩ ⟨c.advanceBy stride, false⟩

/-- The loop comes from one place to another. -/
abbrev Reaches : HostScanner → HostScanner → Prop :=
  Relation.ReflTransGen Turn

theorem Turn.le (turn : scanner.Turn other) : scanner.cursor ≤ other.cursor := by
  cases turn with
  | blanks => exact le_skipBlanks _
  | unit => exact le_advanceBy _ _
  | markup => exact le_advanceBy _ _

theorem Reaches.le (reaches : scanner.Reaches target) : scanner.cursor ≤ target.cursor := by
  induction reaches with
  | refl => exact Cursor.le_refl _
  | tail _ turn ih => exact Cursor.le_trans ih turn.le

section Front

variable {opening : OpaqueOpening} {front later later' : List Char}

/-- A cursor that is not moved beyond the text in front of a token. -/
theorem le_length_of_parts
    {n : Nat}
    (parts : Parts front (opening.chars ++ later) (opening.chars ++ later') c c')
    (within : (opening.chars ++ later).length ≤ (c.advanceBy n).size) :
    n ≤ front.length := by
  have opens : 0 < (opening.chars ++ later).length := Nat.succ_pos _
  rw [size_advanceBy, size, parts.rest, @List.length_append _ front] at within
  omega

/-- A turn in front of an opaque token is the same, whatever the token holds. -/
theorem Turn.exists_of_parts
    (turn : scanner.Turn target)
    (parts : Parts front (opening.chars ++ later) (opening.chars ++ later') scanner.cursor
      other.cursor)
    (same : other.expressionStart = scanner.expressionStart)
    (within : (opening.chars ++ later).length ≤ target.cursor.size) :
    ∃ front target', other.Turn target' ∧
      Parts front (opening.chars ++ later) (opening.chars ++ later') target.cursor target'.cursor ∧
      target'.expressionStart = target.expressionStart := by
  obtain ⟨cursor, start'⟩ := other
  dsimp only at parts same
  subst same
  cases turn with
  | @blanks c start =>
      have run (c : Cursor) (later : List Char)
          (ahead : c.rest = front ++ (opening.chars ++ later)) :
          c.skipBlanks = c.advanceBy (front.takeWhile isBlank).length := by
        rw [Cursor.skipBlanks, skipWhile, textWhile, ahead,
          OpaqueOpening.takeWhile_opening opening.stops_first.blank]
      have moved := parts.advanceBy rfl (List.takeWhile_prefix isBlank).length_le
      rw [← run _ _ parts.rest, ← run _ _ parts.rest'] at moved
      exact ⟨_, _, .blanks, moved, rfl⟩
  | @unit c start first rest unit ahead visible pass =>
      have fits := le_length_of_parts parts within
      have moved := parts.advanceBy rfl fits
      obtain ⟨ch, front, rfl⟩ := List.exists_cons_of_ne_nil
        (List.ne_nil_of_length_pos (Nat.lt_of_lt_of_le (Nat.succ_pos _) fits))
      have whole := ahead.symm.trans parts.rest
      rw [List.cons_append] at whole
      obtain ⟨rfl, rfl⟩ := List.cons.inj whole
      have pass' := @OpaqueOpening.agreesWithin_hostAhead front later later' first start opening
        (by rw [pass]; exact Nat.le_of_succ_le_succ fits)
      exact ⟨_, _, .unit parts.rest' visible (pass'.trans pass), moved, rfl⟩
  | @markup c start first rest stride ahead visible markup =>
      have moved := parts.advanceBy rfl (le_length_of_parts parts within)
      cases front with
      | nil =>
          obtain ⟨rfl, rfl⟩ := List.cons.inj (ahead.symm.trans parts.rest)
          exact absurd markup OpaqueOpening.hostAhead_ne_markup
      | cons ch front =>
          have whole := ahead.symm.trans parts.rest
          rw [List.cons_append] at whole
          obtain ⟨rfl, rfl⟩ := List.cons.inj whole
          have markup' := @OpaqueOpening.agreesWithin_hostAhead front later later' first start
            opening (by rw [markup]; trivial)
          exact ⟨_, _, .markup parts.rest' visible (markup'.trans markup), moved, rfl⟩

/-- The loop comes to an opaque token in the same way, whatever the token holds. -/
theorem exists_reaches_of_parts
    (reaches : scanner.Reaches target)
    (parts : Parts front (opening.chars ++ later) (opening.chars ++ later') scanner.cursor
      other.cursor)
    (same : other.expressionStart = scanner.expressionStart)
    (stands : target.cursor.rest = opening.chars ++ later) :
    ∃ target', other.Reaches target' ∧
      Parts [] (opening.chars ++ later) (opening.chars ++ later') target.cursor target'.cursor ∧
      target'.expressionStart = target.expressionStart := by
  induction reaches using Relation.ReflTransGen.head_induction_on generalizing front other with
  | refl =>
      have nothing : front = [] := List.append_left_eq_self.mp (parts.rest.symm.trans stands)
      subst nothing
      exact ⟨other, .refl, parts, same⟩
  | head turn reaches ih =>
      have fewer := size_le_of_le (Reaches.le reaches)
      rw [size, stands] at fewer
      obtain ⟨front, next, turn', parts, same⟩ := turn.exists_of_parts parts same fewer
      obtain ⟨target', onward, there⟩ := ih parts same
      exact ⟨target', .head turn' onward, there⟩

end Front

/-! ## Exchanging a token -/

section Exchange

variable {opening : OpaqueOpening} {front completion completion' later later' : List Char}

/-- The loop comes to an opaque token whatever the token holds. -/
theorem reaches_placeBehind
    (reaches : (ofText (String.ofList (front ++ (opening.chars ++ later)))).Reaches
      ⟨placeBehind front (opening.chars ++ later), start⟩) :
    (ofText (String.ofList (front ++ (opening.chars ++ later')))).Reaches
      ⟨placeBehind front (opening.chars ++ later'), start⟩ := by
  have parts := parts_ofText front (opening.chars ++ later) (opening.chars ++ later')
  obtain ⟨⟨target, start'⟩, reaches', there, same⟩ := @exists_reaches_of_parts _
    (ofText (String.ofList (front ++ (opening.chars ++ later')))) _ _ _ _ later' reaches parts rfl
    (rest_placeBehind _ _)
  dsimp only at there same
  subst same
  have moved := parts.advanceBy rfl (Nat.le_refl front.length)
  have here : target = placeBehind front (opening.chars ++ later') := by
    obtain ⟨rest, place⟩ := target
    exact congr (congrArg Cursor.mk (there.rest'.trans (rest_placeBehind front _).symm))
      (there.position.trans moved.position.symm)
  rw [← here]
  exact reaches'

/-- What is found from an opaque token on is what is found behind it. -/
theorem findings_of_takes (taken : opening.Takes start completion later) (strides : List Nat) :
    findings ⟨placeBehind front (opening.chars ++ completion ++ later), start⟩ strides =
      findings ⟨placeBehind (front ++ (opening.chars ++ completion)) later, opening.onward start⟩
        strides := by
  have passes := passes_placeBehind front (opening.chars ++ completion) later
  rw [← rest_placeBehind (front ++ (opening.chars ++ completion)) later] at taken
  exact findings_congr (congrArg Prod.fst (OpaqueOpening.next_of_takes taken passes)) strides

/--
What an opaque token holds does not influence where markup is found.  A token that a scanner takes
as a whole may be exchanged for any other one that opens alike and is complete: the loop comes to
the second one as it comes to the first one, and from there it finds the same markup, the same fault
and the same end of the text, at positions that are moved as the text behind the token is.
-/
theorem findings_exchanged
    (taken : opening.Takes start completion later)
    (complete : opening.Completes completion') :
    ((ofText (String.ofList (front ++ (opening.chars ++ completion ++ later)))).Reaches
        ⟨placeBehind front (opening.chars ++ completion ++ later), start⟩ ↔
      (ofText (String.ofList (front ++ (opening.chars ++ completion' ++ later)))).Reaches
        ⟨placeBehind front (opening.chars ++ completion' ++ later), start⟩) ∧
      ∀ strides,
        findings ⟨placeBehind front (opening.chars ++ completion' ++ later), start⟩ strides =
          (findings ⟨placeBehind front (opening.chars ++ completion ++ later), start⟩ strides).map
            (HostFinding.moved
              (placeBehind (front ++ (opening.chars ++ completion)) later).position
              (placeBehind (front ++ (opening.chars ++ completion')) later).position) := by
  have taken' : opening.Takes start completion' later :=
    OpaqueOpening.takes_iff.mpr ⟨complete, (OpaqueOpening.takes_iff.mp taken).2⟩
  refine ⟨?_, fun strides => ?_⟩
  · rw [List.append_assoc, List.append_assoc]
    exact ⟨reaches_placeBehind, reaches_placeBehind⟩
  · rw [findings_of_takes taken, findings_of_takes taken']
    exact findings_moved (by rw [rest_placeBehind, rest_placeBehind]) strides

/-- An escaped quote does not end a string, so a tag behind it is no markup either. -/
theorem findings_exchanged_string :
    ∃ opening : OpaqueOpening, opening.chars = ['"'] ∧
      opening.Takes true "<b>\"".toList " . <p>".toList ∧
      opening.Completes "\\\"<i>\"".toList ∧
      (ofText (String.ofList (['=', ' '] ++
          (opening.chars ++ "\\\"<i>\"".toList ++ " . <p>".toList)))).Reaches
        ⟨placeBehind ['=', ' '] (opening.chars ++ "\\\"<i>\"".toList ++ " . <p>".toList), true⟩ ∧
      ∀ strides,
        findings ⟨placeBehind ['=', ' ']
            (opening.chars ++ "\\\"<i>\"".toList ++ " . <p>".toList), true⟩ strides =
          (findings ⟨placeBehind ['=', ' ']
              (opening.chars ++ "<b>\"".toList ++ " . <p>".toList), true⟩ strides).map
            (HostFinding.moved ⟨7, 1, 8⟩ ⟨9, 1, 10⟩) := by
  let opening := OpaqueOpening.string '"' (.inr (.inl rfl))
  have taken : opening.Takes true "<b>\"".toList " . <p>".toList :=
    ⟨"<b>\"".toList, [], List.mem_singleton_self _, (List.append_nil _).symm, _, rfl, rfl⟩
  have complete : opening.Completes "\\\"<i>\"".toList := by
    refine .string (.escaped (.plain ?_ ?_ (.plain ?_ ?_ (.plain ?_ ?_ .nil)))) <;> decide
  have reaches : (ofText (String.ofList (['=', ' '] ++
      (opening.chars ++ "<b>\"".toList ++ " . <p>".toList)))).Reaches
        ⟨placeBehind ['=', ' '] (opening.chars ++ "<b>\"".toList ++ " . <p>".toList), true⟩ := by
    rw [placeBehind_eq, HostScanner.ofText, Cursor.ofText, String.toList_ofList]
    exact .head (@Turn.unit _ true '=' _ ⟨0, true⟩ rfl rfl rfl) (.single .blanks)
  obtain ⟨reached, found⟩ := @findings_exchanged true opening ['=', ' '] _ _ _ taken complete
  have before : (placeBehind (['=', ' '] ++ (opening.chars ++ "<b>\"".toList))
      " . <p>".toList).position = ⟨7, 1, 8⟩ := by
    rw [placeBehind_eq]
    rfl
  have behind : (placeBehind (['=', ' '] ++ (opening.chars ++ "\\\"<i>\"".toList))
      " . <p>".toList).position = ⟨9, 1, 10⟩ := by
    rw [placeBehind_eq]
    rfl
  rw [before, behind] at found
  exact ⟨opening, rfl, taken, complete, reached.mp reaches, found⟩

end Exchange

end HostScanner

end EmbeddedMarkup
