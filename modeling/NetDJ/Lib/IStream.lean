import Mathlib.Data.List.TakeWhile
import NetDJ.Lib.Loop

/-!
# `std::istream::getline` on a buffer

`getline(buf, n)` stores the characters up to the next line end, which it takes out of the stream.
At the end of the text it sets `eofbit`; it sets `failbit` if it takes out nothing, and also if
`n - 1` characters are stored and the line goes on: then the rest of the line stays in the stream.
On a stream with one of the bits set it takes out nothing.

* `IStream.lines` : the lines of a text, whose last line end may be missing;
* `IStream.getline` : the characters that a call stores, and the stream behind it;
* `whileGetline`, `whileGood`, `untilEof` : the loops `while (s.getline(buf, n))`,
  `while (s) s.getline(buf, n);` and `while (!s.eof()) s.getline(buf, n);` as sources of lines;
* `pulls_whileGetline`, `pulls_whileGood`, `pulls_untilEof` : what the loops get, up to the first
  line that does not fit the buffer;
* `not_ends_of_long` : behind such a line the third loop never ends.
-/

structure IStream where
  rest : List Char
  eofbit : Bool
  failbit : Bool
  deriving DecidableEq

namespace IStream

open Loop

def ofText (content : List Char) : IStream := ⟨content, false, false⟩

def getline (n : Nat) (s : IStream) : List Char × IStream :=
  if s.eofbit || s.failbit then ([], { s with failbit := true })
  else
    let line := s.rest.takeWhile (· ≠ '\n')
    if line.length < n then
      match s.rest.drop line.length with
      | [] => (line, ⟨[], true, line.isEmpty⟩)
      | _ :: rest => (line, { s with rest := rest })
    else (line.take (n - 1), { s with rest := s.rest.drop (n - 1), failbit := true })

/-! ## Lines -/

/-- The lines of a text. -/
def lines : List Char → List (List Char)
  | [] => []
  | c :: s =>
    if c = '\n' then [] :: lines s
    else
      match lines s with
      | [] => [[c]]
      | l :: ls => (c :: l) :: ls

/-- A text is one line that nothing ends, or begins with a line that is ended. -/
theorem lines_induction {P : List Char → Prop} (last : ∀ s, '\n' ∉ s → P s)
    (line : ∀ l t, '\n' ∉ l → P t → P (l ++ '\n' :: t)) (s : List Char) : P s := by
  induction hn : s.length using Nat.strong_induction_on generalizing s with
  | _ n ih =>
    by_cases hs : '\n' ∈ s
    · obtain ⟨l, t, rfl, hl⟩ := List.eq_append_cons_of_mem hs
      refine line l t hl (ih t.length ?_ t rfl)
      rw [← hn, List.length_append, List.length_cons]
      omega
    · exact last s hs

theorem lines_line {l : List Char} (hl : '\n' ∉ l) (t : List Char) :
    lines (l ++ '\n' :: t) = l :: lines t := by
  induction l with
  | nil => simp [lines]
  | cons c l ih =>
    rw [List.mem_cons, not_or] at hl
    rw [List.cons_append, lines, if_neg (Ne.symm hl.1), ih hl.2]

theorem lines_last {s : List Char} (hs : '\n' ∉ s) : lines s = if s = [] then [] else [s] := by
  induction s with
  | nil => rfl
  | cons c s ih =>
    rw [List.mem_cons, not_or] at hs
    rw [lines, if_neg (Ne.symm hs.1), ih hs.2, if_neg (List.cons_ne_nil c s)]
    by_cases hnil : s = []
    · rw [if_pos hnil, hnil]
    · rw [if_neg hnil]

theorem notMem_of_mem_lines {s l : List Char} (h : l ∈ lines s) : '\n' ∉ l ∧ l ⊆ s := by
  induction s using lines_induction with
  | last s hs =>
    rw [lines_last hs] at h
    split at h
    · cases h
    · rw [List.mem_singleton] at h
      subst h
      exact ⟨hs, List.Subset.refl l⟩
  | line l' t hl' ih =>
    rw [lines_line hl', List.mem_cons] at h
    rcases h with rfl | h
    · exact ⟨hl', List.subset_append_left _ _⟩
    · obtain ⟨hl, hsub⟩ := ih h
      exact ⟨hl, List.Subset.trans hsub fun c hc => by simp [hc]⟩

/-! ## One call -/

section Getline
variable {n : Nat} {l t : List Char}

theorem takeWhile_line (hl : '\n' ∉ l) (t : List Char) :
    (l ++ '\n' :: t).takeWhile (· ≠ '\n') = l := by
  rw [List.takeWhile_append_of_pos fun c hc => decide_eq_true (ne_of_mem_of_not_mem hc hl)]
  simp

theorem takeWhile_last (hl : '\n' ∉ l) : l.takeWhile (· ≠ '\n') = l :=
  List.takeWhile_eq_self_iff.mpr fun _ hc => decide_eq_true (ne_of_mem_of_not_mem hc hl)

theorem getline_line (hl : '\n' ∉ l) (hn : l.length < n) (t : List Char) :
    (ofText (l ++ '\n' :: t)).getline n = (l, ofText t) := by
  simp only [getline, ofText, takeWhile_line hl, if_pos hn, List.drop_left]
  rfl

theorem getline_last (hl : '\n' ∉ l) (hn : l.length < n) :
    (ofText l).getline n = (l, ⟨[], true, l.isEmpty⟩) := by
  simp only [getline, ofText, takeWhile_last hl, if_pos hn, List.drop_length]
  rfl

/-- The first line of a text, with what comes behind it, or the whole of it. -/
theorem takeWhile_of_lines {s l : List Char} (h : (lines s).head? = some l) :
    s.takeWhile (· ≠ '\n') = l := by
  induction s using lines_induction with
  | last s hs =>
    rw [lines_last hs] at h
    split at h
    · cases h
    · rw [takeWhile_last hs]
      exact Option.some.inj h
  | line l' t hl' _ =>
    rw [lines_line hl', List.head?_cons] at h
    rw [takeWhile_line hl']
    exact Option.some.inj h

/-- The first line does not fit the buffer. -/
theorem getline_long {s : List Char} (h : (lines s).head? = some l) (hn : n ≤ l.length) :
    (ofText s).getline n = (l.take (n - 1), ⟨s.drop (n - 1), false, true⟩) := by
  simp only [getline, ofText, takeWhile_of_lines h, if_neg (Nat.not_lt.mpr hn)]
  rfl

theorem getline_bad {s : IStream} (h : s.eofbit = true ∨ s.failbit = true) :
    s.getline n = ([], { s with failbit := true }) := by
  rw [getline, if_pos (by simpa using h)]

end Getline

/-! ## Loops -/

section Loops
variable {ε α : Type*} {n : Nat}

/-- `while (s.getline(buf, n))`. -/
def whileGetline (ε : Type*) (n : Nat) (s : IStream) : Except ε (Option (List Char × IStream)) :=
  .ok (if (s.getline n).2.failbit then none else some (s.getline n))

/-- `while (s) s.getline(buf, n);`. -/
def whileGood (ε : Type*) (n : Nat) (s : IStream) : Except ε (Option (List Char × IStream)) :=
  .ok (if s.failbit then none else some (s.getline n))

/-- `while (!s.eof()) s.getline(buf, n);`. -/
def untilEof (ε : Type*) (n : Nat) (s : IStream) : Except ε (Option (List Char × IStream)) :=
  .ok (if s.eofbit then none else some (s.getline n))

/-- The line fits a buffer of `n` characters. -/
def FitsIn (n : Nat) (l : List Char) : Bool := l.length < n

theorem fits_iff {l : List Char} : FitsIn n l = true ↔ l.length < n := decide_eq_true_iff

theorem pulls_whileGetline (hn : 0 < n) (s : List Char) :
    ∃ j, Pulls (whileGetline ε n) (ofText s) ((lines s).takeWhile (FitsIn n)) j := by
  have long : ∀ s l, (lines s).head? = some l → n ≤ l.length →
      Pulls (whileGetline ε n) (ofText s) [] (ofText s) := by
    intro s l hl hlen
    exact .nil (by rw [whileGetline, getline_long hl hlen]; rfl)
  induction s using lines_induction with
  | last s hs =>
    rw [lines_last hs]
    split
    · next hnil =>
      subst hnil
      refine ⟨_, .nil ?_⟩
      rw [whileGetline, getline_last hs hn]
      rfl
    · next hne =>
      by_cases hlen : s.length < n
      · rw [List.takeWhile_cons_of_pos (fits_iff.mpr hlen)]
        have hfirst : whileGetline ε n (ofText s) = .ok (some (s, ⟨[], true, false⟩)) := by
          rw [whileGetline, getline_last hs hlen, List.isEmpty_eq_false_iff.mpr hne]
          rfl
        refine ⟨_, .cons hfirst (.nil ?_)⟩
        rw [whileGetline, getline_bad (.inl rfl)]
        rfl
      · rw [List.takeWhile_cons_of_neg (mt fits_iff.mp hlen)]
        refine ⟨_, long s s ?_ (Nat.not_lt.mp hlen)⟩
        rw [lines_last hs, if_neg hne]
        rfl
  | line l t hl ih =>
    rw [lines_line hl]
    by_cases hlen : l.length < n
    · obtain ⟨j, hj⟩ := ih
      rw [List.takeWhile_cons_of_pos (fits_iff.mpr hlen)]
      refine ⟨j, .cons ?_ hj⟩
      rw [whileGetline, getline_line hl hlen]
      rfl
    · rw [List.takeWhile_cons_of_neg (mt fits_iff.mp hlen)]
      refine ⟨_, long _ l ?_ (Nat.not_lt.mp hlen)⟩
      rw [lines_line hl]
      rfl

/-- The last pass of `while (s)`, which sees the end: what fits of a line that is too long, or
nothing. -/
def lastPass (n : Nat) (ls : List (List Char)) : List Char :=
  ((ls.dropWhile (FitsIn n)).headD []).take (n - 1)

theorem lastPass_nil : lastPass n [] = [] := List.take_nil

theorem lastPass_of_fits {l : List Char} (h : l.length < n) (ls : List (List Char)) :
    lastPass n (l :: ls) = lastPass n ls := by
  rw [lastPass, List.dropWhile_cons_of_pos (fits_iff.mpr h)]
  rfl

theorem lastPass_of_long {l : List Char} (h : n ≤ l.length) (ls : List (List Char)) :
    lastPass n (l :: ls) = l.take (n - 1) := by
  rw [lastPass, List.dropWhile_cons_of_neg (mt fits_iff.mp (Nat.not_lt.mpr h))]
  rfl

/-- The last pass has nothing, or a full buffer of a line. -/
theorem lastPass_cases (n : Nat) (ls : List (List Char)) : lastPass n ls = [] ∨
    (lastPass n ls).length = n - 1 ∧ ∃ l ∈ ls, lastPass n ls ⊆ l := by
  cases hrest : ls.dropWhile (FitsIn n) with
  | nil =>
    rw [lastPass, hrest]
    exact .inl List.take_nil
  | cons l rest =>
    have hlong : n ≤ l.length := by
      have hhead := List.head?_dropWhile_not (FitsIn n) ls
      rw [hrest] at hhead
      simpa [FitsIn] using hhead
    have hmem : l ∈ ls := (List.dropWhile_sublist _).subset (hrest ▸ List.mem_cons_self)
    rw [lastPass, hrest]
    exact .inr ⟨List.length_take_of_le (Nat.le_trans (Nat.sub_le n 1) hlong), l, hmem,
      List.take_subset _ _⟩

theorem pulls_whileGood (hn : 0 < n) (s : List Char) : ∃ j, Pulls (whileGood ε n) (ofText s)
    ((lines s).takeWhile (FitsIn n) ++ [lastPass n (lines s)]) j := by
  have long : ∀ s l ls, lines s = l :: ls → n ≤ l.length →
      ∃ j, Pulls (whileGood ε n) (ofText s)
        ((lines s).takeWhile (FitsIn n) ++ [lastPass n (lines s)]) j := by
    intro s l ls hl hlen
    rw [hl, List.takeWhile_cons_of_neg (mt fits_iff.mp (Nat.not_lt.mpr hlen)), lastPass_of_long hlen]
    refine ⟨⟨s.drop (n - 1), false, true⟩, .cons ?_ (.nil rfl)⟩
    rw [whileGood, getline_long (by rw [hl]; rfl) hlen]
    rfl
  induction s using lines_induction with
  | last s hs =>
    by_cases hnil : s = []
    · subst hnil
      rw [lines_last hs, if_pos rfl, lastPass_nil]
      exact ⟨⟨[], true, true⟩, .cons (by rw [whileGood, getline_last hs hn]; rfl) (.nil rfl)⟩
    · have hlines : lines s = [s] := by rw [lines_last hs, if_neg hnil]
      by_cases hlen : s.length < n
      · rw [hlines, List.takeWhile_cons_of_pos (fits_iff.mpr hlen), lastPass_of_fits hlen,
          lastPass_nil]
        have hfirst : whileGood ε n (ofText s) = .ok (some (s, ⟨[], true, false⟩)) := by
          rw [whileGood, getline_last hs hlen, List.isEmpty_eq_false_iff.mpr hnil]
          rfl
        refine ⟨⟨[], true, true⟩, .cons hfirst (.cons ?_ (.nil rfl))⟩
        rw [whileGood, getline_bad (.inl rfl)]
        rfl
      · exact long s s [] hlines (Nat.not_lt.mp hlen)
  | line l t hl ih =>
    by_cases hlen : l.length < n
    · obtain ⟨j, hj⟩ := ih
      rw [lines_line hl, List.takeWhile_cons_of_pos (fits_iff.mpr hlen), lastPass_of_fits hlen]
      refine ⟨j, .cons ?_ hj⟩
      rw [whileGood, getline_line hl hlen]
      rfl
    · exact long _ l (lines t) (lines_line hl t) (Nat.not_lt.mp hlen)

/-- If all lines fit, the third loop gets them, and behind a last line end an empty one. -/
theorem pulls_untilEof (hn : 0 < n) {s : List Char} (hfit : ∀ l ∈ lines s, l.length < n) :
    ∃ j extra, (extra = [] ∨ extra = [[]]) ∧
      Pulls (untilEof ε n) (ofText s) (lines s ++ extra) j := by
  induction s using lines_induction with
  | last s hs =>
    have hend : ∀ fail, untilEof ε n ⟨[], true, fail⟩ = .ok none := fun _ => rfl
    rw [lines_last hs] at hfit ⊢
    split
    · next hnil =>
      subst hnil
      refine ⟨_, [[]], .inr rfl, .cons ?_ (.nil (hend true))⟩
      rw [untilEof, getline_last hs hn]
      rfl
    · next hne =>
      rw [if_neg hne] at hfit
      refine ⟨_, [], .inl rfl, .cons ?_ (.nil (hend false))⟩
      rw [untilEof, getline_last hs (hfit s List.mem_cons_self), List.isEmpty_eq_false_iff.mpr hne]
      rfl
  | line l t hl ih =>
    rw [lines_line hl, List.forall_mem_cons] at hfit
    obtain ⟨j, extra, hextra, hj⟩ := ih hfit.2
    refine ⟨j, extra, hextra, ?_⟩
    rw [lines_line hl]
    refine .cons ?_ hj
    rw [untilEof, getline_line hl hfit.1]
    rfl

/-- Behind a line that does not fit, the third loop reads nothing for ever. -/
theorem not_ends_of_long {f : α → List Char → Except ε α} (hf : ∀ a x, ∃ a', f a x = .ok a')
    {s : List Char} (hlong : ∃ l ∈ lines s, n ≤ l.length) (a : α) (r : Except ε (IStream × α)) :
    ¬ Ends (round (untilEof ε n) f) (ofText s, a) r := by
  have stuck : ∀ s a r, (s : IStream).eofbit = false → s.failbit = true →
      ¬ Ends (round (untilEof ε n) f) (s, a) r := by
    intro s a r heof hfail
    refine not_ends (I := fun s => s.1.eofbit = false ∧ s.1.failbit = true) ?_ ⟨heof, hfail⟩ r
    rintro ⟨s, a⟩ ⟨he, hf'⟩
    obtain ⟨a', ha'⟩ := hf a []
    refine ⟨({ s with failbit := true }, a'), round_of_pull ?_ ha', he, rfl⟩
    rw [untilEof, getline_bad (.inr hf'), if_neg (by rw [he]; exact Bool.false_ne_true)]
  have long : ∀ s l a r, (lines s).head? = some l → n ≤ l.length →
      ¬ Ends (round (untilEof ε n) f) (ofText s, a) r := by
    intro s l a r hl hlen
    obtain ⟨a', ha'⟩ := hf a (l.take (n - 1))
    rw [ends_iff_of_pass (round_of_pull (by rw [untilEof, getline_long hl hlen]; rfl) ha')]
    exact stuck _ _ _ rfl rfl
  induction s using lines_induction generalizing a with
  | last s hs =>
    obtain ⟨l, hl, hlen⟩ := hlong
    rw [lines_last hs] at hl
    split at hl
    · cases hl
    · next hne =>
      obtain rfl := List.mem_singleton.mp hl
      exact long l l a r (by rw [lines_last hs, if_neg hne]; rfl) hlen
  | line l t hl ih =>
    by_cases hlen : l.length < n
    · rw [lines_line hl] at hlong
      obtain ⟨l', hl', hlen'⟩ := hlong
      rcases List.mem_cons.mp hl' with rfl | hl'
      · omega
      · obtain ⟨a', ha'⟩ := hf a l
        rw [ends_iff_of_pass (round_of_pull (by rw [untilEof, getline_line hl hlen]; rfl) ha')]
        exact ih ⟨l', hl', hlen'⟩ a'
    · exact long _ l a r (by rw [lines_line hl]; rfl) (Nat.not_lt.mp hlen)

end Loops

end IStream
