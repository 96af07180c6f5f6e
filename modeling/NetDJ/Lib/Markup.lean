import Mathlib.Data.List.Infix

/-!
# Texts with tags

A document is text with elements in it, each between a tag and its end tag. A tag that begins with
`?` opens nothing.

* `Doc.render` : a document as text;
* `read` : a text by its tags;
* `readDoc_render` : a document is read back up to an end tag;
* `read_render` : so rendering and reading is a round trip, if no text has a `<` in it and no tag
  a `>`;
* `Doc.elements`, `Doc.content` : the elements of a document, and its text.
-/

namespace Markup

/-- Text, and then an element, or a tag that opens nothing, and what follows. -/
inductive Doc where
  | text (s : List Char)
  | instr (s tag : List Char) (rest : Doc)
  | elem (s tag : List Char) (inner rest : Doc)
  deriving DecidableEq

/-- The name that a tag begins with. -/
def tagName (tag : List Char) : List Char := tag.takeWhile (· ≠ ' ')

/-- A tag that opens an element. -/
def Opens (tag : List Char) : Prop := '>' ∉ tag ∧ tag.head? ≠ some '/' ∧ tag.head? ≠ some '?'

instance (tag : List Char) : Decidable (Opens tag) := inferInstanceAs (Decidable (_ ∧ _ ∧ _))

def endTag (tag : List Char) : List Char := '<' :: '/' :: (tagName tag ++ ['>'])

namespace Doc

def render : Doc → List Char
  | text s => s
  | instr s tag rest => s ++ '<' :: (tag ++ '>' :: rest.render)
  | elem s tag inner rest =>
    s ++ '<' :: (tag ++ '>' :: (inner.render ++ (endTag tag ++ rest.render)))

/-- No text has a `<` in it and no tag a `>`, and the tags show what they are. -/
def Ok : Doc → Prop
  | text s => '<' ∉ s
  | instr s tag rest => '<' ∉ s ∧ '>' ∉ tag ∧ tag.head? = some '?' ∧ rest.Ok
  | elem s tag inner rest => '<' ∉ s ∧ Opens tag ∧ inner.Ok ∧ rest.Ok

def size : Doc → Nat
  | text _ => 1
  | instr _ _ rest => rest.size + 1
  | elem _ _ inner rest => inner.size + rest.size + 1

theorem size_le (d : Doc) : d.size ≤ d.render.length + 1 := by
  induction d with
  | text s => exact Nat.le_add_left _ _
  | instr s tag rest ih =>
    simp only [size, render, List.length_append, List.length_cons]
    omega
  | elem s tag inner rest ih₁ ih₂ =>
    simp only [size, render, List.length_append, List.length_cons]
    omega

/-- The elements at the top of a document: their tags and what is in them. -/
def elements : Doc → List (List Char × Doc)
  | text _ => []
  | instr _ _ rest => rest.elements
  | elem _ tag inner rest => (tag, inner) :: rest.elements

/-- The text of a document without its tags. -/
def content : Doc → List Char
  | text s => s
  | instr s _ rest => s ++ rest.content
  | elem s _ inner rest => s ++ inner.content ++ rest.content

end Doc

/-! ## Reading -/

/-- The text before the first `c`, and the text behind it. -/
def cut (c : Char) : List Char → List Char × Option (List Char)
  | [] => ([], none)
  | x :: t => if x = c then ([], some t) else (x :: (cut c t).1, (cut c t).2)

def dropPrefix (p t : List Char) : Option (List Char) :=
  if p <+: t then some (t.drop p.length) else none

/-- The document up to an end tag or the end of the text, and what is left then. -/
def readDoc : Nat → List Char → Option (Doc × List Char)
  | 0, _ => none
  | n + 1, t =>
    match cut '<' t with
    | (s, none) => some (.text s, [])
    | (s, some t') =>
      match cut '>' t' with
      | (_, none) => none
      | (tag, some after) =>
        if tag.head? = some '/' then some (.text s, '<' :: t')
        else if tag.head? = some '?' then
          (readDoc n after).map fun r => (.instr s tag r.1, r.2)
        else
          (readDoc n after).bind fun inner =>
            (dropPrefix (endTag tag) inner.2).bind fun t'' =>
              (readDoc n t'').map fun r => (.elem s tag inner.1 r.1, r.2)

/-- All of a text. It has fewer tags than characters. -/
def read (t : List Char) : Option Doc :=
  match readDoc (t.length + 1) t with
  | some (d, []) => some d
  | _ => none

theorem cut_append {c : Char} {s : List Char} (h : c ∉ s) (t : List Char) :
    cut c (s ++ c :: t) = (s, some t) := by
  induction s with
  | nil => exact if_pos rfl
  | cons x s ih =>
    rw [List.mem_cons, not_or] at h
    rw [List.cons_append, cut, if_neg (Ne.symm h.1), ih h.2]

theorem cut_of_notMem {c : Char} {s : List Char} (h : c ∉ s) : cut c s = (s, none) := by
  induction s with
  | nil => rfl
  | cons x s ih =>
    rw [List.mem_cons, not_or] at h
    rw [cut, if_neg (Ne.symm h.1), ih h.2]

theorem dropPrefix_append (p t : List Char) : dropPrefix p (p ++ t) = some t := by
  rw [dropPrefix, if_pos (List.prefix_append p t), List.drop_left]

/-- The text ends, or an end tag comes. -/
def Stops (t : List Char) : Prop :=
  t = [] ∨ ∃ name after, '>' ∉ name ∧ t = '<' :: '/' :: (name ++ '>' :: after)

theorem stops_endTag {tag : List Char} (h : '>' ∉ tag) (t : List Char) :
    Stops (endTag tag ++ t) := by
  refine .inr ⟨tagName tag, t, fun hmem => h ((List.takeWhile_sublist _).subset hmem), ?_⟩
  simp [endTag]

theorem readDoc_render {d : Doc} (hd : d.Ok) {n : Nat} (hn : d.size ≤ n) {t : List Char}
    (ht : Stops t) : readDoc n (d.render ++ t) = some (d, t) := by
  induction d generalizing n t with
  | text s =>
    obtain ⟨n, rfl⟩ := Nat.exists_eq_add_one_of_ne_zero (Nat.ne_of_gt hn)
    rcases ht with rfl | ⟨name, after, hname, rfl⟩
    · rw [List.append_nil, Doc.render, readDoc, cut_of_notMem hd]
    · have htag : '>' ∉ '/' :: name := by simpa using hname
      rw [Doc.render, readDoc, cut_append hd]
      dsimp only
      rw [← List.cons_append, cut_append htag]
      exact if_pos rfl
  | instr s tag rest ih =>
    obtain ⟨n, rfl⟩ := Nat.exists_eq_add_one_of_ne_zero (Nat.ne_of_gt (Nat.lt_of_lt_of_le
      (Nat.succ_pos _) hn))
    obtain ⟨hs, htag, hhead, hrest⟩ := hd
    rw [Doc.render, List.append_assoc, List.cons_append, List.append_assoc, List.cons_append,
      readDoc, cut_append hs]
    dsimp only
    rw [cut_append htag]
    dsimp only
    rw [hhead, if_neg (by decide), if_pos rfl, ih hrest (by simp only [Doc.size] at hn; omega) ht]
    rfl
  | elem s tag inner rest ih₁ ih₂ =>
    obtain ⟨n, rfl⟩ := Nat.exists_eq_add_one_of_ne_zero (Nat.ne_of_gt (Nat.lt_of_lt_of_le
      (Nat.succ_pos _) hn))
    obtain ⟨hs, ⟨htag, hslash, hinstr⟩, hinner, hrest⟩ := hd
    simp only [Doc.size] at hn
    rw [Doc.render, List.append_assoc, List.cons_append, List.append_assoc, List.cons_append,
      List.append_assoc, List.append_assoc, readDoc, cut_append hs]
    dsimp only
    rw [cut_append htag]
    dsimp only
    rw [if_neg hslash, if_neg hinstr, ih₁ hinner (by omega) (stops_endTag htag _),
      Option.bind_some, dropPrefix_append, Option.bind_some, ih₂ hrest (by omega) ht]
    rfl

/-- **Rendering and reading is a round trip.** -/
theorem read_render {d : Doc} (hd : d.Ok) : read d.render = some d := by
  have hread := readDoc_render hd d.size_le (.inl rfl : Stops [])
  rw [List.append_nil] at hread
  rw [read, hread]

end Markup
