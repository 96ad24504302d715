import EmbeddedMarkup.Proofs.Text.Cursor

/-!
# Visible ends

A text that ends with a character that is not blank ends in no line break, whatever follows it.  If
the character is a point, another point behind it could belong to it; a text that ends visibly does
not end between two points either.
-/

namespace EmbeddedMarkup

variable {c d e : Cursor} {ch : Char} {text rest : List Char}

/-! ## Texts -/

/-- The text ends with a character that is not blank, and it does not end between two points. -/
def EndsVisibly (text behind : List Char) : Prop :=
  ∃ front ch, text = front ++ [ch] ∧ isBlank ch = false ∧ (ch = '.' → behind.head? ≠ some '.')

namespace EndsVisibly

theorem append (ends : EndsVisibly text rest) (front : List Char) :
    EndsVisibly (front ++ text) rest := by
  obtain ⟨more, ch, rfl, visible, point⟩ := ends
  exact ⟨front ++ more, ch, (List.append_assoc _ _ _).symm, visible, point⟩

theorem singleton (visible : isBlank ch = false) (other : ch ≠ '.') : EndsVisibly [ch] rest :=
  ⟨[], ch, rfl, visible, fun point => absurd point other⟩

/-- A run of visible characters other than points ends with one of them. -/
theorem of_forall
    (nonempty : text ≠ [])
    (visible : ∀ ch ∈ text, isBlank ch = false ∧ ch ≠ '.') :
    EndsVisibly text rest := by
  rw [← List.dropLast_concat_getLast nonempty]
  obtain ⟨here, other⟩ := visible _ (List.getLast_mem nonempty)
  exact (singleton here other).append _

end EndsVisibly

/-! ## Cursors -/

/--
There is text between the cursors, and its last character is not blank and not one of several
points.
-/
def Cursor.StopsVisibly (c d : Cursor) : Prop :=
  ∃ last ch, c ≤ last ∧ last.Passes [ch] d ∧ isBlank ch = false ∧ (ch = '.' → d.peek? ≠ some '.')

namespace Cursor.StopsVisibly

theorem lt (stops : c.StopsVisibly d) : c < d := by
  obtain ⟨last, ch, reached, passes, -⟩ := stops
  exact Cursor.lt_of_le_of_lt reached (passes.lt (List.cons_ne_nil _ _))

theorem of_le (stops : d.StopsVisibly e) (reached : c ≤ d) : c.StopsVisibly e := by
  obtain ⟨last, ch, inside, ends⟩ := stops
  exact ⟨last, ch, Cursor.le_trans reached inside, ends⟩

/-- What stops visibly does so behind every cursor in front of its end. -/
theorem behind (stops : c.StopsVisibly e) (reached : c ≤ d) (before : d < e) :
    d.StopsVisibly e := by
  obtain ⟨last, ch, inside, passes, visible⟩ := stops
  refine ⟨last, ch, le_of_size_le reached inside ?_, passes, visible⟩
  have fewer := size_lt_of_lt before
  have one := congrArg List.length passes.1
  rw [List.length_append, List.length_singleton] at one
  simp only [size] at fewer one ⊢
  omega

theorem of_passes (passes : c.Passes text d) (ends : EndsVisibly text d.rest) :
    c.StopsVisibly d := by
  obtain ⟨front, ch, rfl, visible⟩ := ends
  obtain ⟨last, front, passes⟩ := passes_append.mp passes
  exact ⟨last, ch, front.le, passes, visible⟩

theorem of_eat?
    (eaten : c.eat? ch = some d)
    (visible : isBlank ch = false)
    (other : ch ≠ '.') :
    c.StopsVisibly d :=
  ⟨c, ch, c.le_refl, passes_singleton.mpr (eat?_eq_some_iff.mp eaten), visible,
    fun point => absurd point other⟩

/-- The last character in front of a visible end is not blank. -/
theorem visible (stops : c.StopsVisibly e) (reached : c ≤ d) (passes : d.Passes [ch] e) :
    isBlank ch = false := by
  obtain ⟨last, ch', inside, passes', visible, -⟩ := stops
  have same : d = last := by
    have size_eq : d.size = last.size := by
      rw [size, size, passes.1, passes'.1]
      rfl
    rw [eq_advanceBy_size reached, eq_advanceBy_size inside, size_eq]
  rw [same] at passes
  have ahead := passes.1.symm.trans passes'.1
  rw [(List.cons.inj ahead).1, visible]

/-- Text in front of a visible end does not end between two points. -/
theorem whole (stops : c.StopsVisibly e) (reached : c ≤ d) (within : d ≤ e) :
    (d.textTo e).getLast? = some '.' → e.rest.head? ≠ some '.' := by
  intro point
  have before : d < e := by
    refine ⟨within, Nat.lt_of_not_le fun more => ?_⟩
    rw [textTo, Nat.sub_eq_zero_of_le more] at point
    cases point
  obtain ⟨last, ch, inside, passes, -, alone⟩ := stops.behind reached before
  have spelled : d.textTo e = d.textTo last ++ [ch] := by
    apply textTo_eq_of_rest
    rw [List.append_assoc, ← passes.1, textTo_append_rest inside]
  rw [spelled, List.getLast?_concat] at point
  exact alone (Option.some.inj point)

end Cursor.StopsVisibly

end EmbeddedMarkup
