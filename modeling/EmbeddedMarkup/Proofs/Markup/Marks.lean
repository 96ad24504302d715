import EmbeddedMarkup.Markup.Content
import EmbeddedMarkup.Proofs.Text.Cursor
import EmbeddedMarkup.Proofs.Text.Normalization

/-!
# Marks in content

A run of literal text ends in front of the first mark: a closing tag, an opening tag, a brace or
the end of the input.  Whether a character is a mark depends on what follows it, so a text is
unmarked in front of another one.
-/

namespace EmbeddedMarkup

/-- No character of the text is a mark when `after` follows the text. -/
def Unmarked : List Char → List Char → Prop
  | [], _ => True
  | c :: text, after => ContentMark.at? c (text ++ after) = none ∧ Unmarked text after

namespace ContentMark

variable {text after rest : List Char} {mark : ContentMark} {length : Nat}

/-- An unmarked text is run over. -/
theorem next_append (unmarked : Unmarked text after) :
    next (text ++ after) = (text.length + (next after).1, (next after).2) := by
  induction text with
  | nil => simp
  | cons c text ih =>
      obtain ⟨here, behind⟩ := unmarked
      rw [List.cons_append, next, here]
      dsimp only
      rw [ih behind, List.length_cons]
      simp only [Prod.mk.injEq, and_true]
      omega

theorem next_of_at? {c : Char} (found : at? c rest = some mark) : next (c :: rest) = (0, mark) := by
  rw [next, found]

/-- What is run over is unmarked, and a mark follows it. -/
theorem unmarked_of_next (found : next rest = (length, mark)) :
    length ≤ rest.length ∧ Unmarked (rest.take length) (rest.drop length) ∧
      next (rest.drop length) = (0, mark) := by
  induction rest generalizing length with
  | nil =>
      cases found
      exact ⟨Nat.le_refl _, trivial, rfl⟩
  | cons c rest ih =>
      rw [next] at found
      split at found
      · rename_i here
        cases found
        exact ⟨Nat.zero_le _, trivial, next_of_at? here⟩
      · rename_i here
        cases found
        obtain ⟨bounded, unmarked, marked⟩ := ih rfl
        refine ⟨Nat.succ_le_succ bounded, ⟨?_, unmarked⟩, marked⟩
        rwa [List.drop_succ_cons, List.take_append_drop]

/-- A mark is recognized at the character that it starts with. -/
theorem exists_at?_of_next (found : next rest = (0, mark)) (more : mark ≠ .endOfInput) :
    ∃ c tail, rest = c :: tail ∧ at? c tail = some mark := by
  cases rest with
  | nil =>
      cases found
      exact absurd rfl more
  | cons c tail =>
      refine ⟨c, tail, rfl, ?_⟩
      rw [next] at found
      cases here : at? c tail with
      | some other =>
          rw [here] at found
          cases found
          rfl
      | none =>
          rw [here] at found
          exact absurd (congrArg Prod.fst found) (Nat.succ_ne_zero _)

/-- A closing tag is marked by its first two characters. -/
theorem exists_of_next_closingTag (found : next rest = (0, .closingTag)) :
    ∃ more, rest = '<' :: '/' :: more := by
  obtain ⟨c, tail, rfl, marked⟩ := exists_at?_of_next found nofun
  unfold at? at marked
  split at marked
  · rename_i both
    obtain ⟨rfl, second⟩ := both
    obtain ⟨more, rfl⟩ := List.head?_eq_some_iff.mp second
    exact ⟨more, rfl⟩
  · split at marked
    · cases marked
    · split at marked <;> cases marked

/-- A brace is marked by itself. -/
theorem exists_of_next_brace (found : next rest = (0, .brace)) : ∃ more, rest = '\x7b' :: more := by
  obtain ⟨c, tail, rfl, marked⟩ := exists_at?_of_next found nofun
  unfold at? at marked
  split at marked
  · cases marked
  · split at marked
    · cases marked
    · split at marked
      · rename_i brace
        exact ⟨tail, by rw [brace]⟩
      · cases marked

theorem next_closingTag (more : List Char) : next ('<' :: '/' :: more) = (0, .closingTag) :=
  rfl

theorem next_brace (more : List Char) : next ('\x7b' :: more) = (0, .brace) :=
  next_of_at? (by simp [at?, startsMarkup])

end ContentMark

/-- A tag or a pair of braces is ahead. -/
def StartsMark (rest : List Char) : Prop :=
  rest.head? = some '<' ∨ rest.head? = some '\x7b'

variable {text raw rest after : List Char} {ch : Char}

/-- A mark is the start of a tag or a brace, unless nothing is left. -/
theorem startsMark_of_next
    {mark : ContentMark}
    (found : ContentMark.next rest = (0, mark))
    (more : mark ≠ .endOfInput) :
    StartsMark rest := by
  unfold ContentMark.next at found
  split at found
  · cases found
    contradiction
  · rename_i ch rest
    split at found
    · rename_i marked
      unfold ContentMark.at? at marked
      split at marked
      · rename_i closing
        rw [closing.1]
        exact .inl rfl
      · split at marked
        · rename_i opening
          unfold startsMarkup at opening
          split at opening
          · rename_i same
            cases same
            exact .inl rfl
          · cases opening
        · split at marked
          · rename_i brace
            rw [brace]
            exact .inr rfl
          · cases marked
    · cases found

theorem ContentMark.at?_eq_none_iff :
    ContentMark.at? ch rest = none ↔
      ch ≠ '\x7b' ∧ (ch = '<' → rest.head? ≠ some '/' ∧ startsMarkup ('<' :: rest) = false) := by
  unfold at?
  by_cases bracket : ch = '<'
  · subst bracket
    by_cases slash : rest.head? = some '/' <;> simp [slash]
  · have text : startsMarkup (ch :: rest) = false := by
      unfold startsMarkup
      split
      · rename_i same
        cases same
        exact absurd rfl bracket
      · rfl
    by_cases brace : ch = '\x7b'
    · subst brace
      simp [text]
    · simp [bracket, brace, text]

/-- A text without brackets and braces is unmarked. -/
theorem unmarked_of_plain (plain : ∀ ch ∈ text, ch ≠ '<' ∧ ch ≠ '\x7b') : Unmarked text rest := by
  induction text with
  | nil => trivial
  | cons ch text ih =>
      obtain ⟨here, behind⟩ := List.forall_mem_cons.mp plain
      exact ⟨ContentMark.at?_eq_none_iff.mpr ⟨here.2, fun bracket => absurd bracket here.1⟩,
        ih behind⟩

/-- A tag is told by the first character that is not blank. -/
theorem startsMarkup_cons :
    startsMarkup ('<' :: rest) =
      ((rest.find? (!isBlank ·)).map fun ch => isIdentifierStart ch || ch == '>').getD false := by
  induction rest with
  | nil => rfl
  | cons ch rest ih =>
      cases blank : isBlank ch with
      | true =>
          rw [List.find?_cons_of_neg (by simp [blank]), ← ih]
          simp [startsMarkup, blank]
      | false =>
          rw [List.find?_cons_of_pos (by simp [blank])]
          simp [startsMarkup, blank]

/-- No mark makes a tag of the bracket in front of it. -/
theorem StartsMark.startsMarkup_append (marked : StartsMark rest) :
    startsMarkup ('<' :: (text ++ rest)) = startsMarkup ('<' :: text) := by
  rw [startsMarkup_cons, startsMarkup_cons, List.find?_append]
  cases text.find? (!isBlank ·) with
  | some ch => rfl
  | none =>
      rcases marked with bracket | brace
      · obtain ⟨more, rfl⟩ := List.head?_eq_some_iff.mp bracket
        rfl
      · obtain ⟨more, rfl⟩ := List.head?_eq_some_iff.mp brace
        rfl

/-- What is unmarked in front of a mark is unmarked in front of any other. -/
theorem Unmarked.exchange
    (unmarked : Unmarked text rest)
    (marked : StartsMark rest)
    (marked' : StartsMark after) :
    Unmarked text after := by
  induction text with
  | nil => trivial
  | cons ch text ih =>
      obtain ⟨here, behind⟩ := unmarked
      obtain ⟨notBrace, bracket⟩ := ContentMark.at?_eq_none_iff.mp here
      refine ⟨ContentMark.at?_eq_none_iff.mpr ⟨notBrace, fun isBracket => ?_⟩, ih behind⟩
      obtain ⟨slash, tag⟩ := bracket isBracket
      refine ⟨?_, by rwa [marked'.startsMarkup_append, ← marked.startsMarkup_append]⟩
      cases text with
      | cons next text => exact slash
      | nil => rcases marked' with first | first <;> simp [first]

section Collapsed

variable {trimStart trimEnd started pending : Bool}

/-- Collapsing keeps the first character that is not blank. -/
theorem find?_collapseBlanks :
    (collapseBlanks trimStart trimEnd started pending raw).find? (!isBlank ·) =
      raw.find? (!isBlank ·) := by
  fun_induction collapseBlanks trimStart trimEnd started pending raw with
  | case1 => rfl
  | case2 => rfl
  | case3 started pending ch raw blank ih =>
      rw [ih, List.find?_cons_of_neg (by simp [blank])]
  | case4 started pending ch raw visible ih =>
      have space : isBlank ' ' = true := rfl
      split <;> simp [visible, space]

/-- Behind a word, blank space becomes a space or nothing. -/
theorem head?_collapseBlanks_pending
    (found : (collapseBlanks trimStart trimEnd true true raw).head? = some ch) :
    ch = ' ' := by
  induction raw with
  | nil =>
      cases trimEnd <;> cases found
      rfl
  | cons first raw ih =>
      cases blank : isBlank first with
      | false =>
          rw [collapseBlanks_visible_cons blank] at found
          cases found
          rfl
      | true =>
          rw [collapseBlanks, if_pos blank] at found
          exact ih found

theorem head?_of_collapseBlanks
    (visible : isBlank ch = false)
    (found : (collapseBlanks trimStart trimEnd true false raw).head? = some ch) :
    raw.head? = some ch := by
  cases raw with
  | nil => cases found
  | cons first raw =>
      cases blank : isBlank first with
      | false =>
          rw [collapseBlanks_visible_cons blank] at found
          exact found
      | true =>
          rw [collapseBlanks, if_pos blank] at found
          rw [head?_collapseBlanks_pending found] at visible
          cases visible

/-- Collapsing makes no marks. -/
theorem Unmarked.collapseBlanks
    (unmarked : Unmarked raw rest)
    (marked : StartsMark rest)
    (marked' : StartsMark after) :
    Unmarked (EmbeddedMarkup.collapseBlanks trimStart trimEnd started pending raw) after := by
  have space (rest : List Char) : ContentMark.at? ' ' rest = none :=
    ContentMark.at?_eq_none_iff.mpr ⟨by decide, fun bracket => absurd bracket (by decide)⟩
  induction raw generalizing started pending with
  | nil =>
      rw [EmbeddedMarkup.collapseBlanks]
      split
      · exact ⟨space _, trivial⟩
      · trivial
  | cons ch raw ih =>
      obtain ⟨here, behind⟩ := unmarked
      cases blank : isBlank ch with
      | true =>
          rw [EmbeddedMarkup.collapseBlanks, if_pos blank]
          exact ih behind
      | false =>
          obtain ⟨notBrace, bracket⟩ := ContentMark.at?_eq_none_iff.mp here
          have here' : ContentMark.at? ch
              (EmbeddedMarkup.collapseBlanks trimStart trimEnd true false raw ++ after) = none := by
            refine ContentMark.at?_eq_none_iff.mpr ⟨notBrace, ?_⟩
            rintro rfl
            obtain ⟨slash, text⟩ := bracket rfl
            constructor
            · intro slash'
              rw [List.head?_append, Option.or_eq_some_iff] at slash'
              rcases slash' with inside | ⟨-, outside⟩
              · rw [List.head?_append, head?_of_collapseBlanks rfl inside] at slash
                exact slash rfl
              · rcases marked' with bracket | brace
                · rw [bracket] at outside
                  cases outside
                · rw [brace] at outside
                  cases outside
            · rwa [marked'.startsMarkup_append, startsMarkup_cons, find?_collapseBlanks,
                ← startsMarkup_cons, ← marked.startsMarkup_append]
          rw [collapseBlanks_visible_cons blank]
          split
          · exact ⟨space _, here', ih behind⟩
          · exact ⟨here', ih behind⟩

end Collapsed

end EmbeddedMarkup
