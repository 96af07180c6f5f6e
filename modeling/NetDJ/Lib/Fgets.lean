import NetDJ.Lib.IStream

/-!
# `fgets` on a buffer

`fgets(buf, n, f)` reads at most `n - 1` characters, and not beyond a line end, which it keeps. A
line that does not fit comes in pieces, the line end behind the last one.

* `fgets` : what a call reads, and the rest of the file;
* `chunks` : the pieces of a line;
* `perPiece` : what is made of a file piece by piece;
* `perPiece_fgets` : reading by `fgets` goes through the pieces of the lines, for work that does not
  see the line end.
-/

namespace Stdio

open IStream (lines lines_line lines_last takeWhile_line takeWhile_last)

def fgets (n : Nat) (s : List Char) : Option (List Char × List Char) :=
  if s = [] then none
  else
    let k := min ((s.takeWhile (· ≠ '\n')).length + 1) (n - 1)
    some (s.take k, s.drop k)

/-- Each call with room for a character takes some. -/
theorem length_fgets {n : Nat} {s buf rest : List Char} (hn : 1 < n)
    (h : fgets n s = some (buf, rest)) : rest.length < s.length := by
  unfold fgets at h
  split at h
  · cases h
  · next hs =>
    obtain ⟨-, rfl⟩ := Prod.mk.inj (Option.some.inj h)
    have hpos : 0 < s.length := List.length_pos_iff.mpr hs
    rw [List.length_drop]
    omega

/-! ## Pieces -/

section Chunks
variable {α β : Type*} {n : Nat}

/-- The pieces of `n` characters, the last one maybe shorter. -/
def chunks (n : Nat) (l : List α) : List (List α) :=
  if l = [] ∨ n = 0 then [] else l.take n :: chunks n (l.drop n)
termination_by l.length
decreasing_by
  next h =>
    have hpos : 0 < l.length := List.length_pos_iff.mpr fun hl => h (.inl hl)
    rw [List.length_drop]
    omega

@[simp] theorem chunks_nil (n : Nat) : chunks n ([] : List α) = [] := by
  simp [chunks]

theorem chunks_of_ne_nil {l : List α} (hl : l ≠ []) (hn : 0 < n) :
    chunks n l = l.take n :: chunks n (l.drop n) := by
  rw [chunks, if_neg (by simp [hl]; omega)]

theorem flatMap_chunks {f : List α → List β} (hnil : f [] = []) {l : List α} (hn : 0 < n)
    (h : l.length ≤ n) : (chunks n l).flatMap f = f l := by
  by_cases hl : l = []
  · simp [hl, hnil]
  · rw [chunks_of_ne_nil hl hn, List.take_of_length_le h, List.drop_eq_nil_of_le h, chunks_nil]
    simp

end Chunks

section Pieces
variable {β : Type*} {n : Nat}

/-- What `f` makes of the pieces of the lines. -/
def perPiece (f : List Char → List β) (n : Nat) (s : List Char) : List β :=
  (lines s).flatMap fun l => (chunks n l).flatMap f

variable {f : List Char → List β}

@[simp] theorem perPiece_nil : perPiece f n [] = [] := rfl

theorem perPiece_line {l : List Char} (hl : '\n' ∉ l) (t : List Char) :
    perPiece f n (l ++ '\n' :: t) = (chunks n l).flatMap f ++ perPiece f n t := by
  simp [perPiece, lines_line hl]

theorem perPiece_last {s : List Char} (hs : '\n' ∉ s) :
    perPiece f n s = (chunks n s).flatMap f := by
  rw [perPiece, lines_last hs]
  split
  · next hnil => simp [hnil]
  · simp

theorem perPiece_fgets (hnil : f [] = []) (hend : ∀ l, f (l ++ ['\n']) = f l) (hn : 0 < n)
    {s buf rest : List Char} (h : fgets (n + 1) s = some (buf, rest)) :
    perPiece f n s = f buf ++ perPiece f n rest := by
  unfold fgets at h
  split at h
  · cases h
  · next hs =>
    obtain ⟨rfl, rfl⟩ := Prod.mk.inj (Option.some.inj h)
    rw [Nat.add_sub_cancel]
    by_cases hmem : '\n' ∈ s
    · obtain ⟨l, t, rfl, hl⟩ := List.eq_append_cons_of_mem hmem
      rw [takeWhile_line hl, perPiece_line hl]
      by_cases hlen : l.length + 1 ≤ n
      · have hsplit : l ++ '\n' :: t = (l ++ ['\n']) ++ t := by simp
        have hk : l.length + 1 = (l ++ ['\n']).length := by simp
        rw [Nat.min_eq_left hlen, flatMap_chunks hnil hn (by omega), hsplit, hk, List.take_left,
          List.drop_left, hend]
      · have hn' : n ≤ l.length := by omega
        have hl' : '\n' ∉ l.drop n := fun hc => hl (List.mem_of_mem_drop hc)
        have hne : l ≠ [] := List.ne_nil_of_length_pos (by omega)
        rw [Nat.min_eq_right (by omega), List.take_append_of_le_length hn',
          List.drop_append_of_le_length hn', perPiece_line hl', chunks_of_ne_nil hne hn]
        simp
    · rw [takeWhile_last hmem, perPiece_last hmem]
      by_cases hlen : s.length + 1 ≤ n
      · rw [Nat.min_eq_left hlen, flatMap_chunks hnil hn (by omega),
          List.take_of_length_le (by omega), List.drop_eq_nil_of_le (by omega)]
        simp
      · have hs' : '\n' ∉ s.drop n := fun hc => hmem (List.mem_of_mem_drop hc)
        rw [Nat.min_eq_right (by omega), perPiece_last hs', chunks_of_ne_nil hs hn]
        simp

end Pieces

end Stdio
