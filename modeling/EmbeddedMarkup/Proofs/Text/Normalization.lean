import EmbeddedMarkup.Text.Normalization
import EmbeddedMarkup.Markup.Content

/-!
# Normal forms of literal text

A text in normal form holds a word, has single spaces for all its blank space, and a space at an
end only where it touches no tag.  These are exactly the texts that normalization leaves alone,
and every text that it makes is one of them.  A text in normal form may be laid out with any blank
space in the place of its spaces.
-/

namespace EmbeddedMarkup

/-- Blank space throughout. -/
def Blank (text : List Char) : Prop :=
  ∀ ch ∈ text, isBlank ch = true

/-- A text in normal form between two neighbours. -/
structure IsNormal (left right : Boundary) (text : List Char) : Prop where
  /-- It holds more than blank space. -/
  visible : ¬Blank text
  /-- All blank space in it is made of spaces. -/
  spaces : ∀ ch ∈ text, isBlank ch = true → ch = ' '
  /-- Its spaces stand alone. -/
  single : ¬[' ', ' '] <:+: text
  /-- It starts with no space where it touches a tag. -/
  start : left = .tag → text.head? ≠ some ' '
  /-- It ends with no space where it touches a tag. -/
  stop : right = .tag → text.getLast? ≠ some ' '

/-- The raw text has blank space wherever the text has a space, and is the same elsewhere. -/
inductive LaysOut : List Char → List Char → Prop
  | nil : LaysOut [] []
  | visible {ch : Char} {text raw : List Char} :
      isBlank ch = false →
      LaysOut text raw →
      LaysOut (ch :: text) (ch :: raw)
  | space {text blanks raw : List Char} :
      blanks ≠ [] →
      Blank blanks →
      LaysOut text raw →
      LaysOut (' ' :: text) (blanks ++ raw)

variable {text raw blanks : List Char} {trimStart trimEnd started pending : Bool}

@[simp] theorem blank_nil : Blank [] :=
  fun _ none => nomatch none

@[simp] theorem blank_cons {ch : Char} : Blank (ch :: text) ↔ isBlank ch = true ∧ Blank text :=
  List.forall_mem_cons

theorem blank_space : Blank [' '] :=
  blank_cons.mpr ⟨rfl, blank_nil⟩

theorem blank_append {more : List Char} : Blank (text ++ more) ↔ Blank text ∧ Blank more :=
  List.forall_mem_append

theorem collapseBlanks_blank_append (blank : Blank blanks) (nonempty : blanks ≠ []) :
    collapseBlanks trimStart trimEnd started pending (blanks ++ raw) =
      collapseBlanks trimStart trimEnd started true raw := by
  induction blanks generalizing pending with
  | nil => contradiction
  | cons ch blanks ih =>
      obtain ⟨here, behind⟩ := blank_cons.mp blank
      rw [List.cons_append, collapseBlanks, if_pos here]
      cases blanks with
      | nil => rfl
      | cons next blanks => exact ih behind (List.cons_ne_nil _ _)

theorem collapseBlanks_visible_cons {ch : Char} (visible : isBlank ch = false) :
    collapseBlanks trimStart trimEnd started pending (ch :: raw) =
      (if pending && (started || !trimStart) then [' '] else []) ++
        ch :: collapseBlanks trimStart trimEnd true false raw := by
  rw [collapseBlanks, if_neg (Bool.eq_false_iff.mp visible)]

/-- A text is its own layout. -/
theorem laysOut_self (spaces : ∀ ch ∈ text, isBlank ch = true → ch = ' ') : LaysOut text text := by
  induction text with
  | nil => exact .nil
  | cons ch text ih =>
      obtain ⟨here, behind⟩ := List.forall_mem_cons.mp spaces
      cases blank : isBlank ch with
      | false => exact .visible blank (ih behind)
      | true =>
          obtain rfl := here blank
          exact @LaysOut.space text [' '] text (List.cons_ne_nil _ _) (by simp [blank])
            (ih behind)

/-- Collapsing a layout of a text gives the text back, if no space at an end is trimmed. -/
theorem collapseBlanks_of_laysOut
    (lays : LaysOut text raw)
    (single : ¬[' ', ' '] <:+: text)
    (keepsStart : started = false → trimStart = true → text.head? ≠ some ' ')
    (keepsEnd : trimEnd = true → text.getLast? ≠ some ' ') :
    collapseBlanks trimStart trimEnd started false raw = text := by
  induction lays generalizing started with
  | nil => rfl
  | @visible ch text raw visible lays ih =>
      rw [collapseBlanks_visible_cons visible]
      have single' : ¬[' ', ' '] <:+: text :=
        fun double => single (double.trans (List.suffix_cons ch text).isInfix)
      have keepsEnd' : trimEnd = true → text.getLast? ≠ some ' ' := by
        intro trims ends
        refine keepsEnd trims ?_
        rw [List.getLast?_cons, ends]
        rfl
      have rest := @ih true single' (by simp) keepsEnd'
      simp [rest]
  | @space text blanks raw nonempty blank lays ih =>
      rw [collapseBlanks_blank_append blank nonempty]
      cases lays with
      | nil =>
          have kept : trimEnd = false := by
            cases trimEnd with
            | false => rfl
            | true => exact absurd rfl (keepsEnd rfl)
          simp [collapseBlanks, kept]
      | @visible ch text raw visible lays =>
          have kept : (started || !trimStart) = true := by
            cases started <;> cases trimStart <;> simp_all
          have single' : ¬[' ', ' '] <:+: ch :: text :=
            fun double => single (double.trans (List.suffix_cons _ _).isInfix)
          have keepsEnd' : trimEnd = true → (ch :: text).getLast? ≠ some ' ' := by
            intro trims ends
            refine keepsEnd trims ?_
            rw [List.getLast?_cons, ends]
            rfl
          have rest := @ih true single' (by simp) keepsEnd'
          rw [collapseBlanks_visible_cons visible] at rest ⊢
          simp only [Bool.false_and, Bool.false_eq_true, if_false, List.nil_append] at rest
          simp [kept, rest]
      | space _ _ _ => exact absurd ⟨[], _, rfl⟩ single

/-- Blank space in front is trimmed. -/
theorem collapseBlanks_trimStart (visible : ¬Blank raw) :
    collapseBlanks true trimEnd false pending raw =
      collapseBlanks true trimEnd false false raw := by
  induction raw generalizing pending with
  | nil => exact absurd blank_nil visible
  | cons ch raw ih =>
      cases blank : isBlank ch with
      | false => simp [collapseBlanks_visible_cons blank]
      | true => rw [collapseBlanks, if_pos blank, collapseBlanks, if_pos blank]

/-- Blank space at the end is trimmed. -/
theorem collapseBlanks_trimEnd (blank : Blank blanks) :
    collapseBlanks trimStart true started pending (raw ++ blanks) =
      collapseBlanks trimStart true started pending raw := by
  induction raw generalizing started pending with
  | nil =>
      cases blanks with
      | nil => rfl
      | cons ch blanks =>
          have nothing := @collapseBlanks_blank_append [] (ch :: blanks) trimStart true started
            pending blank (List.cons_ne_nil _ _)
          rw [List.append_nil] at nothing
          simp [nothing, collapseBlanks]
  | cons ch raw ih =>
      rw [List.cons_append, collapseBlanks, collapseBlanks, ih, ih]

/-- Where text touches a tag there may be blank space that is not kept. -/
def Padding (boundary : Boundary) (blanks : List Char) : Prop :=
  Blank blanks ∧ (boundary = .hole → blanks = [])

theorem blank_of_laysOut (lays : LaysOut text raw) (blank : Blank raw) : Blank text := by
  induction lays with
  | nil => exact blank_nil
  | visible visible _ _ =>
      rw [(blank_cons.mp blank).1] at visible
      cases visible
  | space _ _ _ ih => exact blank_cons.mpr ⟨rfl, ih (blank_append.mp blank).2⟩

/-- A layout of a text in normal form, padded next to tags, has that normal form. -/
theorem normalizeText_of_laysOut
    {left right : Boundary}
    {before behind : List Char}
    (normal : IsNormal left right text)
    (lays : LaysOut text raw)
    (padsLeft : Padding left before)
    (padsRight : Padding right behind) :
    normalizeText (before ++ raw ++ behind) (left == .tag) (right == .tag) =
      some (String.ofList text) := by
  have visible : ¬Blank raw := fun blank => normal.visible (blank_of_laysOut lays blank)
  have whole : ¬Blank (before ++ raw ++ behind) :=
    fun blank => visible (blank_append.mp (blank_append.mp blank).1).2
  have inner : collapseBlanks (left == .tag) (right == .tag) false false raw = text :=
    collapseBlanks_of_laysOut lays normal.single
      (fun _ tag => normal.start (by simpa using tag)) (fun tag => normal.stop (by simpa using tag))
  have trimmedEnd : collapseBlanks (left == .tag) (right == .tag) false false (raw ++ behind) =
      text := by
    cases right with
    | tag => exact (collapseBlanks_trimEnd padsRight.1).trans inner
    | hole =>
        rw [padsRight.2 rfl, List.append_nil]
        exact inner
  have trimmed : collapseBlanks (left == .tag) (right == .tag) false false
      (before ++ raw ++ behind) = text := by
    rw [List.append_assoc]
    cases left with
    | tag =>
        cases before with
        | nil => exact trimmedEnd
        | cons ch before =>
            rw [collapseBlanks_blank_append padsLeft.1 (List.cons_ne_nil _ _)]
            refine (collapseBlanks_trimStart ?_).trans trimmedEnd
            exact fun blank => visible (blank_append.mp blank).1
    | hole =>
        rw [padsLeft.2 rfl, List.nil_append]
        exact trimmedEnd
  unfold normalizeText
  rw [if_neg (fun all => whole (List.all_eq_true.mp all)), trimmed]

/-- A text in normal form is left alone. -/
theorem normalizeText_of_isNormal
    {left right : Boundary}
    (normal : IsNormal left right text) :
    normalizeText text (left == .tag) (right == .tag) = some (String.ofList text) := by
  have lays := laysOut_self normal.spaces
  have padding (boundary : Boundary) : Padding boundary [] := ⟨blank_nil, fun _ => rfl⟩
  simpa using normalizeText_of_laysOut normal lays (padding left) (padding right)

section Collapsed

theorem ne_space_of_visible {ch : Char} (visible : isBlank ch = false) : ch ≠ ' ' := by
  rintro rfl
  cases visible

/-- What is collapsed has no blank space but spaces. -/
theorem eq_space_of_mem_collapseBlanks :
    ∀ ch ∈ collapseBlanks trimStart trimEnd started pending raw, isBlank ch = true → ch = ' ' := by
  fun_induction collapseBlanks trimStart trimEnd started pending raw with
  | case1 started pending ends => simp
  | case2 => simp
  | case3 started pending ch raw blank ih => exact ih
  | case4 started pending ch raw visible ih =>
      intro found member isBlank
      rcases List.mem_append.mp member with space | member
      · split at space <;> simp_all
      · rcases List.mem_cons.mp member with rfl | member
        · exact absurd isBlank visible
        · exact ih found member isBlank

/-- What is collapsed holds every word of the text. -/
theorem not_blank_collapseBlanks (words : ¬Blank raw) :
    ¬Blank (collapseBlanks trimStart trimEnd started pending raw) := by
  fun_induction collapseBlanks trimStart trimEnd started pending raw with
  | case1 => exact absurd blank_nil words
  | case2 => exact absurd blank_nil words
  | case3 started pending ch raw blank ih =>
      exact ih fun behind => words (blank_cons.mpr ⟨blank, behind⟩)
  | case4 started pending ch raw visible ih =>
      intro blank
      exact visible (blank_cons.mp (blank_append.mp blank).2).1

theorem not_double_cons_visible
    {ch : Char}
    (visible : isBlank ch = false)
    (single : ¬[' ', ' '] <:+: text) :
    ¬[' ', ' '] <:+: ch :: text := by
  intro double
  rcases List.infix_cons_iff.mp double with start | inside
  · obtain ⟨rfl, -⟩ := List.cons_prefix_cons.mp start
    cases visible
  · exact single inside

/-- What is collapsed has no two spaces in a row. -/
theorem not_double_collapseBlanks :
    ¬[' ', ' '] <:+: collapseBlanks trimStart trimEnd started pending raw := by
  fun_induction collapseBlanks trimStart trimEnd started pending raw with
  | case1 =>
      intro double
      have length := double.length_le
      simp at length
  | case2 => simp
  | case3 started pending ch raw blank ih => exact ih
  | case4 started pending ch raw visible ih =>
      have visible' : isBlank ch = false := Bool.eq_false_iff.mpr visible
      have single := not_double_cons_visible visible' ih
      split
      · intro double
        rcases List.infix_cons_iff.mp double with start | inside
        · obtain ⟨-, behind⟩ := List.cons_prefix_cons.mp start
          obtain ⟨same, -⟩ := List.cons_prefix_cons.mp behind
          exact ne_space_of_visible visible' same.symm
        · exact single inside
      · exact single

/-- What is collapsed starts with no space where starts are trimmed. -/
theorem head?_collapseBlanks (words : ¬Blank raw) :
    (collapseBlanks true trimEnd false pending raw).head? ≠ some ' ' := by
  induction raw generalizing pending with
  | nil => exact absurd blank_nil words
  | cons ch raw ih =>
      cases blank : isBlank ch with
      | false =>
          rw [collapseBlanks_visible_cons blank]
          simp [ne_space_of_visible blank]
      | true =>
          rw [collapseBlanks, if_pos blank]
          exact ih fun behind => words (blank_cons.mpr ⟨blank, behind⟩)

/-- What is collapsed ends with no space where ends are trimmed. -/
theorem getLast?_collapseBlanks :
    (collapseBlanks trimStart true started pending raw).getLast? ≠ some ' ' := by
  induction raw generalizing started pending with
  | nil => simp [collapseBlanks]
  | cons ch raw ih =>
      cases blank : isBlank ch with
      | false =>
          have other := ne_space_of_visible blank
          have ends := @ih true false
          rw [collapseBlanks_visible_cons blank, List.getLast?_append, List.getLast?_cons]
          cases last : (collapseBlanks trimStart true true false raw).getLast? with
          | none => simpa using other
          | some found =>
              rw [last] at ends
              simpa using ends
      | true =>
          rw [collapseBlanks, if_pos blank]
          exact ih

/-- What normalization makes is in normal form. -/
theorem isNormal_of_normalizeText
    {left right : Boundary}
    {value : String}
    (normalized : normalizeText raw (left == .tag) (right == .tag) = some value) :
    IsNormal left right value.toList := by
  unfold normalizeText at normalized
  split at normalized
  · cases normalized
  · rename_i words
    cases normalized
    have words : ¬Blank raw := fun blank => words (List.all_eq_true.mpr blank)
    rw [String.toList_ofList]
    exact {
      visible := not_blank_collapseBlanks words
      spaces := eq_space_of_mem_collapseBlanks
      single := not_double_collapseBlanks
      start := by
        rintro rfl
        exact head?_collapseBlanks words
      stop := by
        rintro rfl
        exact getLast?_collapseBlanks }

end Collapsed

end EmbeddedMarkup
