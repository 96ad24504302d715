import EmbeddedMarkup.Outline
import Mathlib.Data.List.Basic

/-!
# Outlines that can be read

An outline is written so that it can be told from its text where its blocks and entries end, even
though texts are written as they are.  A text without line ends ends where its line does.  A text of
any characters may hold lines that look like those of an outline; but it is the only entry of its
block, and the titles of such blocks are known.  As its lines are indented deeper than the
parenthesis that ends the block, it ends in front of the first line that is indented less.
-/

namespace EmbeddedMarkup

namespace Outline

/-! ## What is written -/

/-- The characters that start a line. -/
def lineChars (level : Nat) : List Char :=
  '\n' :: List.replicate (4 * level) ' '

/-- The characters of an indented text. -/
def indentChars (level : Nat) (cs : List Char) : List Char :=
  cs.flatMap fun c => if c = '\n' then lineChars level else [c]

mutual

/-- The characters of an outline, at a level of indentation. -/
def chars (level : Nat) : Outline → List Char
  | .text value => indentChars level value.toList
  | .block title entries =>
      title.toList ++ '(' :: (entryChars (level + 1) entries ++ (lineChars level ++ [')']))

/-- The characters of the entries of a block. -/
def entryChars (level : Nat) : List (String × Outline) → List Char
  | [] => []
  | (label, entry) :: entries =>
      lineChars level ++ (label.toList ++ ':' :: ' ' :: (chars level entry ++
        entryChars level entries))

end

@[simp] theorem toList_lineStart (level : Nat) : (lineStart level).toList = lineChars level := by
  simp [lineStart, lineChars]

@[simp] theorem toList_indent (level : Nat) (value : String) :
    (indent level value).toList = indentChars level value.toList := by
  simp [indent, indentChars]

mutual

/-- The outline stands behind what was written already. -/
theorem toList_writeAfter (written : String) (level : Nat) : (outline : Outline) →
    (outline.writeAfter written level).toList = written.toList ++ outline.chars level
  | .text value => by
      rw [writeAfter, chars, String.toList_append, toList_indent]
  | .block title entries => by
      simp [writeAfter, chars, toList_writeEntriesAfter]

theorem toList_writeEntriesAfter (written : String) (level : Nat) :
    (entries : List (String × Outline)) →
      (writeEntriesAfter written level entries).toList =
        written.toList ++ entryChars level entries
  | [] => by simp [writeEntriesAfter, entryChars]
  | (label, entry) :: entries => by
      simp [writeEntriesAfter, entryChars, toList_writeAfter, toList_writeEntriesAfter]

end

@[simp] theorem toList_render (outline : Outline) : outline.render.toList = outline.chars 0 := by
  rw [render, toList_writeAfter]
  rfl

/-! ## Where words and texts end -/

/-- The characters do not go on with one that has the property. -/
def StopsAt (p : Char → Prop) (rest : List Char) : Prop :=
  ∀ c, rest.head? = some c → ¬p c

/-- Two words made of some characters, followed by others, end at the same place. -/
theorem eq_of_append_eq
    {p : Char → Prop}
    {word word' rest rest' : List Char}
    (made : ∀ c ∈ word, p c)
    (made' : ∀ c ∈ word', p c)
    (stops : StopsAt p rest)
    (stops' : StopsAt p rest')
    (same : word ++ rest = word' ++ rest') :
    word = word' ∧ rest = rest' := by
  induction word generalizing word' with
  | nil =>
      cases word' with
      | nil => exact ⟨rfl, same⟩
      | cons c word' =>
          have first : rest.head? = some c := congrArg List.head? same
          exact absurd (made' c List.mem_cons_self) (stops c first)
  | cons c word ih =>
      cases word' with
      | nil =>
          have first : some c = rest'.head? := congrArg List.head? same
          exact absurd (made c List.mem_cons_self) (stops' c first.symm)
      | cons c' word' =>
          obtain ⟨first, behind⟩ := List.cons.inj same
          obtain ⟨words, rests⟩ := ih (List.forall_mem_cons.mp made).2
            (List.forall_mem_cons.mp made').2 behind
          exact ⟨congrArg₂ List.cons first words, rests⟩

theorem lineChars_succ (level : Nat) :
    lineChars (level + 1) = lineChars level ++ "    ".toList := by
  rw [lineChars, lineChars, Nat.mul_succ, List.replicate_add]
  rfl

/-- A line that is indented deeper does not start with a parenthesis. -/
theorem lineChars_succ_append_ne (level : Nat) (rest rest' : List Char) :
    lineChars (level + 1) ++ rest ≠ lineChars level ++ ')' :: rest' := by
  rw [lineChars_succ, List.append_assoc]
  intro same
  have first := congrArg List.head? (List.append_cancel_left same)
  cases first

theorem indentChars_cons (level : Nat) (c : Char) (text : List Char) :
    indentChars level (c :: text) =
      (if c = '\n' then lineChars level else [c]) ++ indentChars level text := rfl

theorem head?_indentChars_cons (level : Nat) (c : Char) (text rest : List Char) :
    (indentChars level (c :: text) ++ rest).head? = some c := by
  rw [indentChars_cons]
  split
  · rename_i lineEnd
    exact congrArg some lineEnd.symm
  · rfl

/-- A text whose lines are indented deeper does not start with a line that ends its block. -/
theorem indentChars_cons_append_ne (level : Nat) (c : Char) (text rest rest' : List Char) :
    indentChars (level + 1) (c :: text) ++ rest ≠ lineChars level ++ ')' :: rest' := by
  rw [indentChars_cons, List.append_assoc]
  split
  · exact lineChars_succ_append_ne level _ _
  · rename_i plain
    exact fun same => plain (List.cons.inj same).1

/-- A text whose lines are indented deeper ends in front of the line that ends its block. -/
theorem eq_of_indentChars_append_eq
    {level : Nat}
    {text text' rest rest' : List Char}
    (same : indentChars (level + 1) text ++ (lineChars level ++ ')' :: rest) =
      indentChars (level + 1) text' ++ (lineChars level ++ ')' :: rest')) :
    text = text' ∧ rest = rest' := by
  induction text generalizing text' with
  | nil =>
      cases text' with
      | nil =>
          have behind : ')' :: rest = ')' :: rest' := List.append_cancel_left same
          exact ⟨rfl, (List.cons.inj behind).2⟩
      | cons c text' => exact absurd same.symm (indentChars_cons_append_ne level c text' _ _)
  | cons c text ih =>
      cases text' with
      | nil => exact absurd same (indentChars_cons_append_ne level c text _ _)
      | cons c' text' =>
          have first := congrArg List.head? same
          rw [head?_indentChars_cons, head?_indentChars_cons, Option.some.injEq] at first
          subst first
          rw [indentChars_cons, indentChars_cons, List.append_assoc, List.append_assoc] at same
          obtain ⟨texts, rests⟩ := ih (List.append_cancel_left same)
          exact ⟨congrArg (List.cons c) texts, rests⟩

/-! ## Outlines that can be read -/

/-- A text that ends where its line ends, and is no title of a block. -/
def IsPlain (text : String) : Prop :=
  ∀ c ∈ text.toList, c ≠ '\n' ∧ c ≠ '('

/-- A label ends at its colon. -/
def IsLabel (label : String) : Prop :=
  ∀ c ∈ label.toList, c ≠ ':'

/--
The outline can be read from what is written for it, if it is known which titles are those of blocks
with nothing in them but a text of any characters.
-/
inductive IsLegible (free : List String) : Outline → Prop
  | text {value : String} :
      IsPlain value →
      IsLegible free (.text value)
  | freeText {title label value : String} :
      title ∈ free →
      IsPlain title →
      IsLabel label →
      IsLegible free (.block title [(label, .text value)])
  | block {title : String} {entries : List (String × Outline)} :
      title ∉ free →
      IsPlain title →
      (∀ entry ∈ entries, IsLabel entry.1) →
      (∀ entry ∈ entries, IsLegible free entry.2) →
      IsLegible free (.block title entries)

/-- What follows an outline: the end of the text, or a line end. -/
abbrev EndsLine (rest : List Char) : Prop :=
  StopsAt (· ≠ '\n') rest

theorem endsLine_lineChars (level : Nat) (rest : List Char) :
    EndsLine (lineChars level ++ rest) := by
  rintro c first plain
  cases first
  exact plain rfl

theorem endsLine_entryChars
    (level : Nat)
    (entries : List (String × Outline))
    (rest : List Char) :
    EndsLine (entryChars (level + 1) entries ++ (lineChars level ++ rest)) := by
  cases entries with
  | nil => exact endsLine_lineChars level rest
  | cons entry entries =>
      rw [entryChars, List.append_assoc]
      exact endsLine_lineChars _ _

/-- A plain text ends where a line ends, or where a parenthesis opens a block. -/
theorem EndsLine.stopsAt {rest : List Char} (ends : EndsLine rest) :
    StopsAt (fun c => c ≠ '\n' ∧ c ≠ '(') rest :=
  fun c first plain => ends c first plain.1

theorem stopsAt_parenthesis (rest : List Char) :
    StopsAt (fun c => c ≠ '\n' ∧ c ≠ '(') ('(' :: rest) := by
  rintro c first plain
  cases first
  exact plain.2 rfl

theorem indentChars_of_isPlain
    {level : Nat}
    {value : String}
    (plain : IsPlain value) :
    indentChars level value.toList = value.toList := by
  rw [indentChars]
  conv => rhs; rw [← List.flatMap_singleton' value.toList]
  refine List.flatMap_congr fun c member => ?_
  rw [if_neg (plain c member).1]

theorem eq_of_label_append_eq
    {label label' : String}
    {rest rest' : List Char}
    (isLabel : IsLabel label)
    (isLabel' : IsLabel label')
    (same : label.toList ++ ':' :: rest = label'.toList ++ ':' :: rest') :
    label = label' ∧ rest = rest' := by
  have stops (rest : List Char) : StopsAt (· ≠ ':') (':' :: rest) := by
    rintro c first other
    cases first
    exact other rfl
  obtain ⟨labels, rests⟩ := eq_of_append_eq isLabel isLabel' (stops rest) (stops rest') same
  exact ⟨String.toList_inj.mp labels, (List.cons.inj rests).2⟩

theorem eq_of_title_append_eq
    {title title' : String}
    {rest rest' : List Char}
    (plain : IsPlain title)
    (plain' : IsPlain title')
    (same : title.toList ++ '(' :: rest = title'.toList ++ '(' :: rest') :
    title = title' ∧ rest = rest' := by
  obtain ⟨titles, rests⟩ := eq_of_append_eq plain plain' (stopsAt_parenthesis rest)
    (stopsAt_parenthesis rest') same
  exact ⟨String.toList_inj.mp titles, (List.cons.inj rests).2⟩

/-- A plain text in front of a line end is no block. -/
theorem plain_append_ne_block
    {value title : String}
    {rest rest' : List Char}
    (plain : IsPlain value)
    (plain' : IsPlain title)
    (ends : EndsLine rest) :
    value.toList ++ rest ≠ title.toList ++ '(' :: rest' := by
  intro same
  obtain ⟨-, rests⟩ := eq_of_append_eq plain plain' ends.stopsAt (stopsAt_parenthesis rest') same
  exact ends '(' (congrArg List.head? rests) (by decide)

theorem chars_block_append
    (level : Nat)
    (title : String)
    (entries : List (String × Outline))
    (rest : List Char) :
    (block title entries).chars level ++ rest =
      title.toList ++
        '(' :: (entryChars (level + 1) entries ++ (lineChars level ++ ')' :: rest)) := by
  simp [chars]

theorem entryChars_cons_append
    (level : Nat)
    (label : String)
    (entry : Outline)
    (entries : List (String × Outline))
    (rest : List Char) :
    entryChars level ((label, entry) :: entries) ++ rest =
      lineChars level ++
        (label.toList ++
          ':' :: ' ' :: (entry.chars level ++ (entryChars level entries ++ rest))) := by
  simp [entryChars]

/-- The outline ends at the same place as every other one that is written in the same way. -/
def IsTold (free : List String) (outline : Outline) : Prop :=
  ∀ {other : Outline} {level : Nat} {rest rest' : List Char}, other.IsLegible free →
    EndsLine rest → EndsLine rest' → outline.chars level ++ rest = other.chars level ++ rest' →
    outline = other ∧ rest = rest'

variable {free : List String}

/-- Entries that are told from what follows them end where their block does. -/
theorem eq_of_entryChars_append_eq
    {level : Nat}
    {entries entries' : List (String × Outline)}
    {rest rest' : List Char}
    (labels : ∀ entry ∈ entries, IsLabel entry.1)
    (labels' : ∀ entry ∈ entries', IsLabel entry.1)
    (told : ∀ entry ∈ entries, entry.2.IsTold free)
    (legible : ∀ entry ∈ entries', entry.2.IsLegible free)
    (same : entryChars (level + 1) entries ++ (lineChars level ++ ')' :: rest) =
      entryChars (level + 1) entries' ++ (lineChars level ++ ')' :: rest')) :
    entries = entries' ∧ rest = rest' := by
  induction entries generalizing entries' with
  | nil =>
      cases entries' with
      | nil =>
          have behind : ')' :: rest = ')' :: rest' := List.append_cancel_left same
          exact ⟨rfl, (List.cons.inj behind).2⟩
      | cons entry entries' =>
          rw [entryChars_cons_append] at same
          exact absurd same.symm (lineChars_succ_append_ne level _ _)
  | cons entry entries ih =>
      obtain ⟨label, entry⟩ := entry
      rw [entryChars_cons_append] at same
      cases entries' with
      | nil => exact absurd same (lineChars_succ_append_ne level _ _)
      | cons entry' entries' =>
          obtain ⟨label', entry'⟩ := entry'
          obtain ⟨isLabel, labels⟩ := List.forall_mem_cons.mp labels
          obtain ⟨isLabel', labels'⟩ := List.forall_mem_cons.mp labels'
          obtain ⟨entryTold, told⟩ := List.forall_mem_cons.mp told
          obtain ⟨entryLegible, legible⟩ := List.forall_mem_cons.mp legible
          rw [entryChars_cons_append] at same
          obtain ⟨sameLabel, afterLabel⟩ :=
            eq_of_label_append_eq isLabel isLabel' (List.append_cancel_left same)
          obtain ⟨sameEntry, afterEntry⟩ := entryTold entryLegible
            (endsLine_entryChars level entries _) (endsLine_entryChars level entries' _)
            (List.cons.inj afterLabel).2
          obtain ⟨sameEntries, rests⟩ := ih labels labels' told legible afterEntry
          exact ⟨congrArg₂ List.cons (Prod.ext sameLabel sameEntry) sameEntries, rests⟩

/-- Outlines that can be read are told from what follows them. -/
theorem IsLegible.isTold {outline : Outline} (legible : outline.IsLegible free) :
    outline.IsTold free := by
  induction legible with
  | @text value plain =>
      intro other level rest rest' legible' ends ends' same
      rw [chars, indentChars_of_isPlain plain] at same
      cases legible' with
      | @text value' plain' =>
          rw [chars, indentChars_of_isPlain plain'] at same
          obtain ⟨values, rests⟩ := eq_of_append_eq plain plain' ends.stopsAt ends'.stopsAt same
          exact ⟨congrArg Outline.text (String.toList_inj.mp values), rests⟩
      | freeText _ plain' =>
          rw [chars_block_append] at same
          exact absurd same (plain_append_ne_block plain plain' ends)
      | block _ plain' =>
          rw [chars_block_append] at same
          exact absurd same (plain_append_ne_block plain plain' ends)
  | @freeText title label value known plain isLabel =>
      intro other level rest rest' legible' _ ends' same
      rw [chars_block_append] at same
      cases legible' with
      | text plain' =>
          rw [chars, indentChars_of_isPlain plain'] at same
          exact absurd same.symm (plain_append_ne_block plain' plain ends')
      | @freeText title' label' value' _ plain' isLabel' =>
          rw [chars_block_append] at same
          obtain ⟨sameTitle, afterTitle⟩ := eq_of_title_append_eq plain plain' same
          rw [entryChars_cons_append, entryChars_cons_append] at afterTitle
          obtain ⟨sameLabel, afterLabel⟩ :=
            eq_of_label_append_eq isLabel isLabel' (List.append_cancel_left afterTitle)
          obtain ⟨sameValue, rests⟩ := eq_of_indentChars_append_eq (List.cons.inj afterLabel).2
          rw [sameTitle, sameLabel, String.toList_inj.mp sameValue]
          exact ⟨rfl, rests⟩
      | block unknown plain' =>
          rw [chars_block_append] at same
          obtain ⟨rfl, -⟩ := eq_of_title_append_eq plain plain' same
          exact absurd known unknown
  | @block title entries unknown plain labels _ told =>
      intro other level rest rest' legible' _ ends' same
      rw [chars_block_append] at same
      cases legible' with
      | text plain' =>
          rw [chars, indentChars_of_isPlain plain'] at same
          exact absurd same.symm (plain_append_ne_block plain' plain ends')
      | freeText known plain' =>
          rw [chars_block_append] at same
          obtain ⟨rfl, -⟩ := eq_of_title_append_eq plain plain' same
          exact absurd known unknown
      | block _ plain' labels' legible' =>
          rw [chars_block_append] at same
          obtain ⟨rfl, behind⟩ := eq_of_title_append_eq plain plain' same
          obtain ⟨rfl, rests⟩ := eq_of_entryChars_append_eq labels labels'
            (fun entry member => told entry member) legible' behind
          exact ⟨rfl, rests⟩

/-- Outlines that can be read are equal when what is written for them is. -/
theorem eq_of_render_eq
    {outline outline' : Outline}
    (legible : outline.IsLegible free)
    (legible' : outline'.IsLegible free)
    (same : outline.render = outline'.render) :
    outline = outline' := by
  have written := congrArg String.toList same
  rw [toList_render, toList_render, ← List.append_nil (outline.chars 0),
    ← List.append_nil (outline'.chars 0)] at written
  have ended : EndsLine [] := fun _ none => nomatch none
  exact (legible.isTold legible' ended ended written).1

end Outline

end EmbeddedMarkup
