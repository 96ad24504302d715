import EmbeddedMarkup.Proofs.Expression.Calls
import EmbeddedMarkup.Proofs.HostText.Stages

/-!
# Faults in whole sources

Whatever a whole source fails with is accounted for, so it is founded.  The causes that stand for a
misuse of a reader are never reported then: nobody asks for an element where there is none, and no
element is made of a name and another one.
-/

namespace EmbeddedMarkup

/-- A document fails with a fault that is founded. -/
theorem Document.isFounded_of_ofText
    {text : String}
    {budget : Nat}
    {fault : Fault}
    (failed : ofText text budget = .error fault) :
    fault.IsFounded (.ofText text) :=
  (isAccountedFor_of_ofText failed).isFounded

/-- A text that is no expression fails with a fault that is founded. -/
theorem Expression.isFounded_of_ofText
    {text : String}
    {budget : Nat}
    {fault : Fault}
    (failed : ofText text budget = .error fault) :
    fault.IsFounded (.ofText text) :=
  (isAccountedFor_of_ofText failed).isFounded

/-! ## Messages -/

/-- How the messages start that would tell of the misuse of a reader of elements. -/
def misuseMessages : List String :=
  ["Expected '<' to start JSX element", "Expected JSX tag name"]

/-- The message of a cause that is borne out tells of no misuse, even if it starts with `E`. -/
theorem Cause.not_prefix_message
    {cause : Cause}
    {c : Cursor}
    {misuse : String}
    (fits : cause.Fits c)
    (isMisuse : misuse ∈ misuseMessages) :
    ¬misuse.toList <+: cause.message.toList := by
  intro starts
  have initial : cause.initial? = some 'E' := by
    have opens : OpensWith misuse 'E' := by
      simp only [misuseMessages, List.mem_cons, List.not_mem_nil, or_false] at isMisuse
      rcases isMisuse with rfl | rfl <;> exact .literal rfl
    obtain ⟨more, same⟩ := starts
    rw [← cause.head?_message, ← same, List.head?_append, opens]
    rfl
  unfold Cause.initial? at initial
  split at initial <;> try cases initial
  · rename_i cause
    cases cause with
    | expectedElement | expectedTagName => exact fits.elim
    | expectedSelfClose | expectedClosingEnd | expectedSpread | expectedHoleEnd =>
        revert misuse
        decide
    | expectedValue name =>
        change misuse.toList <+: ("Expected attribute value after '=' for " ++ quoted name).toList
          at starts
        simp only [misuseMessages, List.mem_cons, List.not_mem_nil, or_false] at isMisuse
        rcases isMisuse with rfl | rfl <;> simp [String.toList_append] at starts
    | _ => cases initial
  · revert misuse
    decide
  · exact fits.elim

/-! ## Calls -/

/-- Reading the elements ahead of a scanner, each by `reader`. -/
def Document.elementsWith
    (reader : ElementReader Expression)
    (modes : ModeStack)
    (scanner : HostScanner) :
    Except Fault (List (Element Expression)) :=
  match scanner.next.1 with
  | .error fault => .error (fault.map .hostText)
  | .ok none => .ok []
  | .ok (some start) =>
      match reader start (hostDelegate.behind start) modes start start.le_refl with
      | .failure fault _ => .error fault
      | .success element modes stop _ =>
          (elementsFrom modes ⟨stop, false⟩).map (element :: ·)

/-- In host text elements are only read where markup starts. -/
theorem Document.elementsFrom_eq_elementsWith
    {reader : ElementReader Expression}
    (readsMarkup : reader.ReadsMarkup)
    (modes : ModeStack)
    (scanner : HostScanner) :
    elementsFrom modes scanner = elementsWith reader modes scanner := by
  rw [elementsFrom_eq_match, elementsWith]
  cases found : scanner.next.1 with
  | error fault => rfl
  | ok found? =>
      cases found? with
      | none => rfl
      | some start =>
          dsimp only
          generalize readsAlike : reader start (hostDelegate.behind start) modes start _ = outcome
          rw [readsMarkup _ _ _ _ _ (HostScanner.startsMarkup_of_next found)] at readsAlike
          subst readsAlike
          unfold readElement
          cases readElementBehind (hostDelegate.behind start) modes start _ <;> rfl

/--
Whatever a whole source fails with is founded, and its message tells of no misuse.  Reading does not
depend on what the reader of elements would do where no markup starts, at none of the three places
that call it, nor on what an element would be made of if its names were not equal.
-/
theorem no_misuse_of_ofText
    (text : String)
    (budget : Nat)
    (reader : ElementReader Expression)
    (readsMarkup : reader.ReadsMarkup)
    (closer : ElementCloser Expression)
    (closes : closer.ClosesEqualNames) :
    (∀ fault,
      Document.ofText text budget = .error fault ∨ Expression.ofText text budget = .error fault →
        fault.IsFounded (.ofText text) ∧
          ∀ misuse ∈ misuseMessages, ¬misuse.toList <+: fault.cause.message.toList) ∧
    (∀ modes scanner,
      Document.elementsFrom modes scanner = Document.elementsWith reader modes scanner) ∧
    (∀ modes stream, readOperand modes stream = readOperandWith reader modes stream) ∧
    (∀ limit delegate modes start (ahead : limit < start) name opened left,
      readContentBehind delegate modes start ahead name opened left =
        readContentWith reader delegate modes start ahead name opened left) ∧
    ∀ limit delegate modes start (ahead : limit ≤ start),
      readElementBehind delegate modes start ahead =
        readElementWith closer delegate modes start ahead := by
  refine ⟨?_, Document.elementsFrom_eq_elementsWith readsMarkup,
    readOperand_eq_readOperandWith readsMarkup, ?_, ?_⟩
  · intro fault failed
    have founded : fault.IsFounded (.ofText text) :=
      failed.elim Document.isFounded_of_ofText Expression.isFounded_of_ofText
    refine ⟨founded, ?_⟩
    obtain ⟨c, -, -, fits⟩ := founded
    exact fun misuse isMisuse => Cause.not_prefix_message fits isMisuse
  · intro limit delegate
    exact readContentBehind_eq_readContentWith readsMarkup
  · intro limit delegate
    exact readElementBehind_eq_readElementWith closes

/-- A reader that fails in words of its own where no markup starts. -/
def cautiousReader : ElementReader Expression := fun _ delegate modes start ahead =>
  if startsMarkup start.rest then readElementBehind delegate modes start ahead
  else .failure ⟨.stated .structural "No markup", start.position⟩ modes

/-- Elements are made of their opening tag, whatever their closing tag is. -/
def carelessCloser : ElementCloser Expression := fun header content modes start stop passed =>
  closeElement header (content.1, header.name) modes start stop passed

/-- A tag that exceeds the budget is refused where markup starts. -/
theorem no_misuse_of_ofText_tag :
    ∃ fault, Document.ofText "<a>" 0 = .error fault ∧
      fault.IsFounded (.ofText "<a>") ∧
      (∀ misuse ∈ misuseMessages, ¬misuse.toList <+: fault.cause.message.toList) ∧
      ∀ modes scanner,
        Document.elementsFrom modes scanner =
          Document.elementsWith cautiousReader modes scanner := by
  have failed : Document.ofText "<a>" 0 =
      .error ⟨.mode (.tooManyTags 0), (Cursor.ofText "<a>").position⟩ := by
    rw [Document.ofText, Document.elementsFrom_eq_match, HostScanner.next_of_markup rfl rfl]
    dsimp only
    rw [readElement, readElementBehind]
    rfl
  obtain ⟨founded, guarded, -⟩ := no_misuse_of_ofText "<a>" 0 cautiousReader
    (fun _ _ _ _ _ markup => if_pos markup) carelessCloser
    (fun _ _ _ _ _ _ same => by rw [carelessCloser, ← same])
  obtain ⟨isFounded, noMisuse⟩ := founded _ (.inl failed)
  exact ⟨_, failed, isFounded, noMisuse, guarded⟩

end EmbeddedMarkup
