import Mathlib.Data.List.Basic
import NetDJ.Lib.Markup

/-!
# Documents as lists of entries

`xml_parse_into_struct`, with case folding and with white space skipped: an element with others in
it has an entry where it opens and one where it closes, each other element has one entry. The parser
hands over each line and each line end by itself, and the text of an entry begins with the first of
them that is not white space.

* `chunks`, `value` : the text of an element;
* `Doc.struct`, `indices` : the entries, and the places of those with one tag;
* `value_of_noBreak` : a text in one line is its own value, if it is not all white space;
* `twoByTwo_blocks` : what is between each opening entry and its closing entry is found from their
  places, two by two.
-/

namespace Markup

/-! ## The text of an element -/

/-- A line end is one `\n`, as `XML_Parse` hands it over; `cr` is set behind a `\r`. -/
def lineEnds (cr : Bool) : List Char → List Char
  | [] => []
  | c :: t =>
    if c = '\r' then '\n' :: lineEnds true t
    else if cr ∧ c = '\n' then lineEnds false t
    else c :: lineEnds false t

/-- The lines and the line ends of a text. -/
def chunks : List Char → List (List Char)
  | [] => []
  | c :: t =>
    if c = '\n' then ['\n'] :: chunks t
    else
      match chunks t with
      | [] => [[c]]
      | d :: ds => if d = ['\n'] then [c] :: d :: ds else (c :: d) :: ds

def white (c : Char) : Bool := c = ' ' || c = '\t' || c = '\n'

/-- White space is skipped until there is a value. -/
def value (s : List Char) : Option (List Char) :=
  match (chunks (lineEnds false s)).dropWhile (·.all white) with
  | [] => none
  | kept => some kept.flatten

theorem lineEnds_of_noBreak {s : List Char} (h : '\r' ∉ s) : lineEnds false s = s := by
  induction s with
  | nil => rfl
  | cons c t ih =>
    rw [List.mem_cons, not_or] at h
    rw [lineEnds, if_neg (Ne.symm h.1), if_neg (by simp), ih h.2]

theorem chunks_of_noBreak {s : List Char} (h : '\n' ∉ s) (hs : s ≠ []) : chunks s = [s] := by
  induction s with
  | nil => exact absurd rfl hs
  | cons c t ih =>
    rw [List.mem_cons, not_or] at h
    rw [chunks, if_neg (Ne.symm h.1)]
    cases t with
    | nil => rfl
    | cons d t =>
      have hd : d :: t ≠ ['\n'] := by
        rintro heq
        exact h.2 (heq ▸ List.mem_singleton_self '\n')
      rw [ih h.2 (List.cons_ne_nil d t)]
      exact if_neg hd

/-- A text in one line is its own value, if it is not all white space. -/
theorem value_of_noBreak {s : List Char} (hcr : '\r' ∉ s) (hlf : '\n' ∉ s)
    (hs : s.all white = false) : value s = some s := by
  have hne : s ≠ [] := by
    rintro rfl
    cases hs
  unfold value
  rw [lineEnds_of_noBreak hcr, chunks_of_noBreak hlf hne, List.dropWhile_cons_of_neg (by simp [hs])]
  exact congrArg some (List.append_nil s)

/-! ## The entries -/

inductive TagType where
  | opening | complete | closing | cdata
  deriving DecidableEq

/-- An entry: its tag in capital letters, what it stands for, and its text. -/
structure TagEntry where
  tag : List Char
  type : TagType
  value : Option (List Char)
  deriving DecidableEq

def upper (tag : List Char) : List Char := (tagName tag).map Char.toUpper

namespace Doc

/-- The text before the first element. -/
def lead : Doc → List Char
  | text s => s
  | instr s _ rest => s ++ rest.lead
  | elem s _ _ _ => s

/-- The entry of a text behind an element, if it has a value. -/
def gap (tag s : List Char) : List TagEntry := (value s).toList.map fun v => ⟨tag, .cdata, some v⟩

/-- The entries of what is in an element with this tag. -/
def struct (tag : List Char) : Doc → List TagEntry
  | text _ => []
  | instr _ _ rest => rest.struct tag
  | elem _ t inner rest =>
    (if inner.elements = [] then [⟨upper t, .complete, value inner.lead⟩]
      else ⟨upper t, .opening, value inner.lead⟩ ::
        (inner.struct (upper t) ++ [⟨upper t, .closing, none⟩])) ++
      (gap tag rest.lead ++ rest.struct tag)

end Doc

/-- The places of the entries with one tag, behind `start` others. -/
def indices (tag : List Char) (start : Nat) (es : List TagEntry) : List Nat :=
  es.findIdxs (·.tag = tag) start

/-! ## Two by two -/

section Blocks
variable {α β : Type*}

/-- A loop over places that takes two in each round; the last one may be missing. -/
def twoByTwo (f : Nat → Option Nat → β) : List Nat → List β
  | [] => []
  | [i] => [f i none]
  | i :: j :: places => f i (some j) :: twoByTwo f places

/-- An item that opens, what is behind it, and the item that closes. -/
def block (b : α × List α × α) : List α := b.1 :: (b.2.1 ++ [b.2.2])

/-- The places of the items that open and close blocks are taken block by block. -/
theorem twoByTwo_blocks {p : α → Bool} {f : Nat → Option Nat → β} {g : List α → β} {es : List α}
    (hf : ∀ pre x inner y post, es = pre ++ (block (x, inner, y) ++ post) →
      f pre.length (some (pre.length + inner.length + 1)) = g inner)
    {bs : List (α × List α × α)}
    (hbs : ∀ b ∈ bs, p b.2.2 = p b.1 ∧ ∀ x ∈ b.2.1, p x = false) {pre post : List α}
    (hpost : ∀ x ∈ post, p x = false) (hes : es = pre ++ (bs.flatMap block ++ post)) :
    twoByTwo f ((bs.flatMap block ++ post).findIdxs p pre.length) =
      (bs.filter fun b => p b.1).map fun b => g b.2.1 := by
  induction bs generalizing pre with
  | nil =>
    rw [List.flatMap_nil, List.nil_append, List.findIdxs_eq_nil_iff.mpr hpost]
    rfl
  | cons b bs ih =>
    obtain ⟨x, inner, y⟩ := b
    rw [List.forall_mem_cons] at hbs
    obtain ⟨⟨hends, hinner⟩, hbs⟩ := hbs
    rw [List.flatMap_cons, List.append_assoc] at hes
    have hes' : es = pre ++ block (x, inner, y) ++ (bs.flatMap block ++ post) := by
      rw [hes, List.append_assoc]
    have ih := ih hbs hes'
    have hlen : (pre ++ block (x, inner, y)).length = pre.length + 1 + inner.length + 1 := by
      simp only [block, List.length_append, List.length_cons, List.length_nil]
      omega
    rw [hlen] at ih
    rw [List.flatMap_cons, List.append_assoc]
    nth_rewrite 1 [block]
    rw [List.cons_append, List.append_assoc, List.findIdxs_cons, List.findIdxs_append,
      List.findIdxs_eq_nil_iff.mpr hinner, List.nil_append, List.cons_append, List.nil_append,
      List.findIdxs_cons]
    cases hx : p x with
    | false =>
      have hy : p y = false := hends.trans hx
      rw [if_neg (by simp), hy, if_neg (by simp), ih, List.filter_cons_of_neg (by simp [hx])]
    | true =>
      have hy : p y = true := hends.trans hx
      rw [if_pos rfl, hy, if_pos rfl, twoByTwo, ih, List.filter_cons_of_pos (by simp [hx]),
        List.map_cons]
      congr 1
      rw [Nat.add_right_comm]
      exact hf pre x inner y _ hes

end Blocks

end Markup
