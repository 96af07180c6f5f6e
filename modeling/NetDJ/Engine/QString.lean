import Mathlib.Algebra.Order.Ring.Int
import NetDJ.Text

/-!
# The `QString` functions the engine uses

* `qsection` : `QString::section`, with its values on a text of one, two or more fields;
* `stripWhiteSpace`, `toInt`, `ascii`.
-/

namespace NetDJ.Engine

/-- `s.section(sep, start, stop)`: the fields `start` to `stop`, to the last one for `none`. -/
def qsection (s : Str) (sep : Char) (start : Nat) (stop : Option Nat) : Str :=
  let fields := s.splitOn sep
  [sep].intercalate ((fields.take (stop.elim fields.length (· + 1))).drop start)

def isSpace (c : Char) : Bool :=
  9 ≤ c.toNat && c.toNat ≤ 13 ||
    c.toNat ∈ [0x20, 0xA0, 0x1680, 0x2028, 0x2029, 0x202F, 0x205F, 0x3000] ||
    0x2000 ≤ c.toNat && c.toNat ≤ 0x200A

def stripWhiteSpace (s : Str) : Str := ((s.dropWhile isSpace).reverse.dropWhile isSpace).reverse

/-- `QString::toInt`: white space, a sign, digits, white space; 0 for everything else and for
numbers that are no `int`. -/
def toInt (s : Str) : Int :=
  let s := stripWhiteSpace s
  let neg := s.head? = some '-'
  let digits := if neg ∨ s.head? = some '+' then s.tail else s
  let n : Nat := digits.foldl (fun n c => 10 * n + (c.toNat - 48)) 0
  if digits ≠ [] ∧ digits.all Char.isDigit then
    if neg then (if n ≤ 2 ^ 31 then -(n : Int) else 0) else (if n < 2 ^ 31 then n else 0)
  else 0

/-- `QString::ascii`: characters outside Latin-1 become question marks. -/
def ascii (s : Str) : Str := s.map fun c => if c.toNat < 256 then c else '?'

theorem ascii_eq_self {s : Str} (h : ∀ c ∈ s, c.toNat < 256) : ascii s = s := by
  rw [ascii]
  conv => rhs; rw [← List.map_id s]
  exact List.map_congr_left fun c hc => if_pos (h c hc)

theorem stripWhiteSpace_subset (s : Str) : stripWhiteSpace s ⊆ s := by
  intro c hc
  rw [stripWhiteSpace, List.mem_reverse] at hc
  have h₁ := (List.dropWhile_sublist _).subset hc
  exact (List.dropWhile_sublist _).subset (List.mem_reverse.mp h₁)

theorem stripWhiteSpace_pad {ws s ws' : Str} (hws : ∀ c ∈ ws, isSpace c = true)
    (hws' : ∀ c ∈ ws', isSpace c = true) :
    stripWhiteSpace (ws ++ s ++ ws') = stripWhiteSpace s := by
  have hfront : ∀ t, (ws ++ t).dropWhile isSpace = t.dropWhile isSpace := by
    intro t
    simp [List.dropWhile_append, List.dropWhile_eq_nil_iff.mpr hws]
  have hback : (ws'.reverse).dropWhile isSpace = [] := by
    simpa [List.dropWhile_eq_nil_iff] using hws'
  unfold stripWhiteSpace
  rw [List.append_assoc, hfront, List.dropWhile_append]
  split
  · next hnil =>
    rw [List.isEmpty_iff] at hnil
    simp [hnil, List.dropWhile_eq_nil_iff.mpr hws']
  · rw [List.reverse_append, List.dropWhile_append, hback]
    simp

theorem stripWhiteSpace_space {ws : Str} (hws : ∀ c ∈ ws, isSpace c = true) :
    stripWhiteSpace ws = [] := by
  simp [stripWhiteSpace, List.dropWhile_eq_nil_iff.mpr hws]

section Fields
variable {sep : Char} {s a b c : Str}

theorem notMem_of_mem_splitOn (sep : Char) (s : Str) : ∀ f ∈ s.splitOn sep, sep ∉ f := by
  induction s with
  | nil => simp
  | cons x s ih =>
    rw [List.splitOn_cons_eq_if_modifyHead]
    split
    · intro f hf
      rcases List.mem_cons.mp hf with rfl | hf
      · exact List.not_mem_nil
      · exact ih f hf
    next hx =>
      obtain ⟨g, gs, hg⟩ := List.exists_cons_of_ne_nil (List.splitOn_ne_nil sep s)
      rw [hg] at ih ⊢
      intro f hf
      rcases List.mem_cons.mp hf with rfl | hf
      · rw [List.mem_cons, not_or]
        exact ⟨fun h => hx (by simp [h]), ih g List.mem_cons_self⟩
      · exact ih f (List.mem_cons_of_mem g hf)

theorem notMem_qsection (s : Str) (sep : Char) (i : Nat) : sep ∉ qsection s sep i (some i) := by
  intro h
  rw [qsection] at h
  simp only [Option.elim_some] at h
  have hlen : (((s.splitOn sep).take (i + 1)).drop i).length ≤ 1 := by
    rw [List.length_drop, List.length_take]
    omega
  match hf : ((s.splitOn sep).take (i + 1)).drop i, hlen with
  | [], _ => simp [hf] at h
  | [f], _ =>
    rw [hf, List.intercalate_singleton] at h
    have hmem : f ∈ s.splitOn sep :=
      List.mem_of_mem_take (List.mem_of_mem_drop (by rw [hf]; exact List.mem_singleton_self f))
    exact notMem_of_mem_splitOn sep s f hmem h

theorem qsection_zero_of_notMem (h : sep ∉ s) : qsection s sep 0 (some 0) = s := by
  simp [qsection, List.splitOn_eq_singleton h]

theorem qsection_one_of_notMem (h : sep ∉ s) : qsection s sep 1 (some 1) = [] := by
  simp [qsection, List.splitOn_eq_singleton h]

theorem qsection_zero_append (ha : sep ∉ a) : qsection (a ++ sep :: b) sep 0 (some 0) = a := by
  simp [qsection, List.splitOn_append_cons_self_of_not_mem ha]

theorem qsection_one_append (ha : sep ∉ a) :
    qsection (a ++ sep :: b) sep 1 (some 1) = qsection b sep 0 (some 0) := by
  simp [qsection, List.splitOn_append_cons_self_of_not_mem ha]

theorem qsection_rest_append (ha : sep ∉ a) : qsection (a ++ sep :: b) sep 1 none = b := by
  simp [qsection, List.splitOn_append_cons_self_of_not_mem ha, List.intercalate_splitOn]

theorem qsection_rest_of_notMem (h : sep ∉ s) : qsection s sep 1 none = [] := by
  simp [qsection, List.splitOn_eq_singleton h]

end Fields

end NetDJ.Engine
