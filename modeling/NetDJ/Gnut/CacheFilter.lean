import Mathlib.Data.List.DropRight
import Mathlib.Data.List.Infix
import NetDJ.Lib.Fgets
import NetDJ.Daemon.Sprintf

/-!
# `gnut.patch`: the filter of the cache

`cache_filter` has 100 places. The loop that fills it compares the place with the size of the array
in bytes, and takes each piece that `fgets` reads for a line.

* `cacheInitFilter`, `cacheApplyFilter` : the functions, with each access inside the array checked;
* `word` : what a piece becomes an entry of, `listed`, `entries` : the words of the lines and of the
  pieces;
* `fill_ok`, `fill_error` : the loop puts the entries into the array, as long as it has room;
* `search_eq` : the search finds an entry that occurs in the name;
* `blocks_iff` : when the filter blocks the words of the file.
-/

namespace NetDJ.Gnut

open IStream (lines)
open Stdio (fgets chunks perPiece)

/-- `char* cache_filter[100]`: an entry, or `NULL`. -/
abbrev CacheFilter := Vector (Option Str) 100

/-- `sizeof(cache_filter) - 1`, with pointers of 8 bytes. -/
def bound : Nat := 100 * 8 - 1

/-- The trailing `\\n` and `\\r` are cut off. -/
def chomp (buf : Str) : Str := buf.rdropWhile fun c => c = '\n' || c = '\r'

/-- The loop over the file, from the place `pos`. -/
def fill (cache_filter : CacheFilter) (pos : Nat) (fil : Str) : Except Abort (CacheFilter × Nat) :=
  if pos < bound then
    match h : fgets 256 fil with
    | none => .ok (cache_filter, pos)
    | some (buf, rest) =>
      let buf := chomp (cStr buf)
      if buf ≠ [] ∧ buf.head? ≠ some '#' then
        if hpos : pos < 100 then fill (cache_filter.set pos (some buf)) (pos + 1) rest
        else .error .undefined
      else fill cache_filter pos rest
  else .ok (cache_filter, pos)
termination_by fil.length
decreasing_by all_goals exact Stdio.length_fgets (by decide) h

/-- The text of `printf`. -/
def filled (pos : Nat) : Str :=
  "Filled cache-filter with ".toList ++ Daemon.decimal (pos - 1) ++ " entries\n".toList

/-- `cache_init_filter` on the file, unless it does not open: the array, and what is printed. -/
def cacheInitFilter (cache_filter : CacheFilter) (fil : Option Str) :
    Except Abort (CacheFilter × Str) :=
  match fil.elim (.ok (cache_filter, 0)) (fill cache_filter 0) with
  | .error e => .error e
  | .ok (cache_filter, pos) =>
    if hpos : pos < 100 then .ok (cache_filter.set pos none, filled pos) else .error .undefined

def search (cache_filter : CacheFilter) (name : Str) (pos : Nat) : Except Abort Int :=
  if hpos : pos < 100 then
    match cache_filter[pos] with
    | none => .ok 1
    | some e => if strstr name e then .ok 0 else search cache_filter name (pos + 1)
  else .error .undefined

def cacheApplyFilter (cache_filter : CacheFilter) (name : Str) : Except Abort Int :=
  search cache_filter name 0

/-! ## Words -/

/-- The word of a line, without its line end, if it has one. -/
def word (l : Str) : List Str := if chomp l ≠ [] ∧ (chomp l).head? ≠ some '#' then [chomp l] else []

def listed (content : Str) : List Str := (lines content).flatMap word

def entries (content : Str) : List Str := perPiece word 255 content

theorem word_nil : word [] = [] := by
  simp [word, chomp]

/-- The line end does not show. -/
theorem word_end (l : Str) : word (l ++ ['\n']) = word l := by
  have hchomp : chomp (l ++ ['\n']) = chomp l := List.rdropWhile_concat_pos _ _ _ (by decide)
  rw [word, hchomp, word]

theorem entries_fgets {s buf rest : Str} (h : fgets 256 s = some (buf, rest)) :
    entries s = word buf ++ entries rest :=
  Stdio.perPiece_fgets word_nil word_end (by decide) h

theorem fgets_eq_none {n : Nat} {s : Str} : fgets n s = none ↔ s = [] := by
  simp [fgets]

theorem append_of_fgets {n : Nat} {s buf rest : Str} (h : fgets n s = some (buf, rest)) :
    s = buf ++ rest := by
  unfold fgets at h
  split at h
  · cases h
  · obtain ⟨rfl, rfl⟩ := Prod.mk.inj (Option.some.inj h)
    exact (List.take_append_drop _ s).symm

theorem strstr_iff {hay needle : Str} : strstr hay needle = true ↔ needle <:+: hay := by
  simp [strstr, List.infix_iff_prefix_suffix, and_comm]

/-! ## The loop that fills the array -/

/-- The first places of the array hold the entries. -/
def Holds (t : CacheFilter) (es : List Str) : Prop := t.toList.take es.length = es.map some

theorem holds_nil (t : CacheFilter) : Holds t [] := rfl

theorem take_set (t : CacheFilter) {pos : Nat} (hpos : pos < 100) (e : Option Str) :
    (t.set pos e).toList.take (pos + 1) = t.toList.take pos ++ [e] := by
  have hlen : pos < (t.toList.set pos e).length := by simpa using hpos
  rw [Vector.toList_set, List.take_succ_eq_append_getElem hlen,
    List.take_set_of_le (Nat.le_refl pos)]
  simp

theorem Holds.set {t : CacheFilter} {es : List Str} (h : Holds t es) (hlen : es.length < 100)
    (e : Str) : Holds (t.set es.length (some e)) (es ++ [e]) := by
  unfold Holds at *
  rw [List.length_append, List.length_singleton, take_set, h]
  simp

section Fill
variable {t : CacheFilter} {pos : Nat} {s buf rest : Str}

theorem fill_nil (hpos : pos ≤ 100) : fill t pos [] = .ok (t, pos) := by
  have hbound : pos < bound := Nat.lt_of_le_of_lt hpos (by decide)
  rw [fill, if_pos hbound]
  rfl

theorem fill_pass (hpos : pos ≤ 100) (hbuf : '\x00' ∉ buf) (h : fgets 256 s = some (buf, rest)) :
    fill t pos s = match word buf with
      | [] => fill t pos rest
      | e :: _ => if hpos : pos < 100 then fill (t.set pos (some e)) (pos + 1) rest
        else .error .undefined := by
  have hbound : pos < bound := Nat.lt_of_le_of_lt hpos (by decide)
  rw [fill, if_pos hbound]
  split
  · next hnone => cases hnone.symm.trans h
  · next buf' rest' hsome =>
    obtain ⟨rfl, rfl⟩ := Prod.mk.inj (Option.some.inj (hsome.symm.trans h))
    rw [cStr_eq_self hbuf, word]
    dsimp only
    split <;> rfl

end Fill

theorem word_cases (l : Str) : word l = [] ∨ ∃ e, word l = [e] := by
  unfold word
  split
  · exact .inr ⟨_, rfl⟩
  · exact .inl rfl

theorem fgets_induction {P : Str → Prop} (nil : P [])
    (piece : ∀ s buf rest, fgets 256 s = some (buf, rest) → P rest → P s) (s : Str) : P s := by
  induction hn : s.length using Nat.strong_induction_on generalizing s with
  | _ n ih =>
    cases h : fgets 256 s with
    | none => exact fgets_eq_none.mp h ▸ nil
    | some r =>
      have hlt : r.2.length < s.length := Stdio.length_fgets (by decide) h
      exact piece s r.1 r.2 h (ih r.2.length (hn ▸ hlt) r.2 rfl)

theorem fill_ok {s : Str} (hnul : '\x00' ∉ s) {t : CacheFilter} {es : List Str} (h : Holds t es)
    (hlen : es.length + (entries s).length ≤ 100) :
    ∃ t', fill t es.length s = .ok (t', (es ++ entries s).length) ∧ Holds t' (es ++ entries s) := by
  induction s using fgets_induction generalizing t es with
  | nil =>
    refine ⟨t, ?_, ?_⟩
    · rw [fill_nil (by omega)]
      simp [entries]
    · simpa [entries] using h
  | piece s buf rest hread ih =>
    have hs := append_of_fgets hread
    have hbuf : '\x00' ∉ buf := fun hc => hnul (hs ▸ List.mem_append_left _ hc)
    have hrest : '\x00' ∉ rest := fun hc => hnul (hs ▸ List.mem_append_right _ hc)
    rw [fill_pass (by omega) hbuf hread, entries_fgets hread]
    rw [entries_fgets hread, List.length_append] at hlen
    rcases word_cases buf with hword | ⟨e, hword⟩ <;> rw [hword] at hlen ⊢ <;> dsimp only
    · exact ih hrest h (by simpa using hlen)
    · rw [List.length_singleton] at hlen
      have hpos : es.length < 100 := by omega
      have hnext : es.length + 1 = (es ++ [e]).length := by simp
      rw [dif_pos hpos, hnext, ← List.append_assoc]
      exact ih hrest (h.set hpos e) (by simpa [Nat.add_assoc] using hlen)

theorem fill_error {s : Str} (hnul : '\x00' ∉ s) (t : CacheFilter) {pos : Nat} (hpos : pos ≤ 100)
    (hlen : 100 < pos + (entries s).length) : fill t pos s = .error .undefined := by
  induction s using fgets_induction generalizing t pos with
  | nil =>
    have hzero : (entries []).length = 0 := rfl
    omega
  | piece s buf rest hread ih =>
    have hs := append_of_fgets hread
    have hbuf : '\x00' ∉ buf := fun hc => hnul (hs ▸ List.mem_append_left _ hc)
    have hrest : '\x00' ∉ rest := fun hc => hnul (hs ▸ List.mem_append_right _ hc)
    rw [fill_pass hpos hbuf hread]
    rw [entries_fgets hread, List.length_append] at hlen
    rcases word_cases buf with hword | ⟨e, hword⟩ <;> rw [hword] at hlen ⊢ <;> dsimp only
    · exact ih hrest t hpos (by simpa using hlen)
    · rw [List.length_singleton] at hlen
      by_cases hroom : pos < 100
      · rw [dif_pos hroom]
        exact ih hrest _ hroom (by omega)
      · exact dif_neg hroom

/-! ## The search -/

theorem getElem_of_drop {t : CacheFilter} {pos : Nat} {x : Option Str} {rest : List (Option Str)}
    (h : t.toList.drop pos = x :: rest) :
    ∃ hpos : pos < 100, t[pos] = x ∧ t.toList.drop (pos + 1) = rest := by
  have hpos : pos < 100 := by
    by_contra hend
    rw [List.drop_eq_nil_of_le (by simpa using Nat.le_of_not_lt hend)] at h
    cases h
  rw [List.drop_eq_getElem_cons (by simpa using hpos)] at h
  obtain ⟨hhead, htail⟩ := List.cons.inj h
  exact ⟨hpos, by simpa using hhead, htail⟩

/-- From a place with the entries `es` and `NULL` behind them. -/
theorem search_eq {t : CacheFilter} (name : Str) {es : List Str} {pos : Nat}
    {rest : List (Option Str)} (h : t.toList.drop pos = es.map some ++ none :: rest) :
    search t name pos = .ok (if ∃ e ∈ es, e <:+: name then 0 else 1) := by
  induction es generalizing pos with
  | nil =>
    obtain ⟨hpos, hget, -⟩ := getElem_of_drop h
    rw [search, dif_pos hpos, hget]
    simp
  | cons e es ih =>
    obtain ⟨hpos, hget, htail⟩ := getElem_of_drop h
    rw [search, dif_pos hpos, hget]
    by_cases hin : strstr name e = true
    · have hex : ∃ e' ∈ e :: es, e' <:+: name := ⟨e, List.mem_cons_self, strstr_iff.mp hin⟩
      simp only [hin, if_true, if_pos hex]
    · have hex : (∃ e' ∈ e :: es, e' <:+: name) ↔ ∃ e' ∈ es, e' <:+: name := by
        simp [mt strstr_iff.mpr hin]
      simp only [hin, hex]
      exact ih htail

/-! ## The filter -/

section Filter
variable {content : Str}

theorem init_ok (hnul : '\x00' ∉ content) (t₀ : CacheFilter)
    (hlen : (entries content).length ≤ 99) : ∃ t out, cacheInitFilter t₀ (some content) = .ok (t, out) ∧
      t.toList.take ((entries content).length + 1) = (entries content).map some ++ [none] := by
  obtain ⟨t, hfill, hholds⟩ := fill_ok hnul (holds_nil t₀) (by simp; omega)
  rw [List.nil_append] at hfill hholds
  have hpos : (entries content).length < 100 := by omega
  refine ⟨t.set (entries content).length none, filled (entries content).length, ?_, ?_⟩
  · rw [cacheInitFilter, Option.elim_some, show fill t₀ 0 content = _ from hfill]
    exact dif_pos hpos
  · rw [take_set, hholds]

theorem init_error (hnul : '\x00' ∉ content) (t₀ : CacheFilter)
    (hlen : 99 < (entries content).length) :
    cacheInitFilter t₀ (some content) = .error .undefined := by
  rw [cacheInitFilter, Option.elim_some]
  by_cases hfit : (entries content).length ≤ 100
  · obtain ⟨t, hfill, -⟩ := fill_ok hnul (holds_nil t₀) (by simpa using hfit)
    rw [show fill t₀ 0 content = _ from hfill]
    exact dif_neg (by simp; omega)
  · rw [fill_error hnul t₀ (Nat.zero_le 100) (by omega)]

theorem apply_eq {t : CacheFilter} {es : List Str}
    (h : t.toList.take (es.length + 1) = es.map some ++ [none]) (name : Str) :
    cacheApplyFilter t name = .ok (if ∃ e ∈ es, e <:+: name then 0 else 1) := by
  have hsplit : t.toList = es.map some ++ none :: t.toList.drop (es.length + 1) := by
    have hcut := List.take_append_drop (es.length + 1) t.toList
    rw [h, List.append_assoc, List.singleton_append] at hcut
    exact hcut.symm
  exact search_eq name hsplit

/-- The functions block exactly the words of the lines: all writes go to the array, `NULL` stands
behind the last entry, and `cache_apply_filter` returns 0 for the names with one of the words. -/
def BlocksListed (t₀ : CacheFilter) (content : Str) : Prop :=
  ∃ t out, cacheInitFilter t₀ (some content) = .ok (t, out) ∧
    (∃ es : List Str, t.toList.take (es.length + 1) = es.map some ++ [none]) ∧
    ∀ name, ∃ r, cacheApplyFilter t name = .ok r ∧
      (r ≠ 0 ↔ ∀ w ∈ listed content, ¬ w <:+: name)

/-- Two lists of words block the same names if each word of one contains a word of the other. -/
theorem blocks_same_iff {es ws : List Str} :
    (∀ name, (∃ e ∈ es, e <:+: name) ↔ ∃ w ∈ ws, w <:+: name) ↔
      (∀ e ∈ es, ∃ w ∈ ws, w <:+: e) ∧ ∀ w ∈ ws, ∃ e ∈ es, e <:+: w := by
  constructor
  · intro h
    refine ⟨fun e he => (h e).mp ?_, fun w hw => (h w).mpr ?_⟩
    · exact ⟨e, he, List.infix_rfl⟩
    · exact ⟨w, hw, List.infix_rfl⟩
  · rintro ⟨hes, hws⟩ name
    constructor
    · rintro ⟨e, he, hin⟩
      obtain ⟨w, hw, hwe⟩ := hes e he
      exact ⟨w, hw, hwe.trans hin⟩
    · rintro ⟨w, hw, hin⟩
      obtain ⟨e, he, hew⟩ := hws w hw
      exact ⟨e, he, hew.trans hin⟩

theorem blocksListed_iff (hnul : '\x00' ∉ content) (t₀ : CacheFilter) : BlocksListed t₀ content ↔
    (entries content).length ≤ 99 ∧
      ∀ name, (∃ e ∈ entries content, e <:+: name) ↔ ∃ w ∈ listed content, w <:+: name := by
  have hzero : ∀ p : Prop, [Decidable p] → ((if p then (0 : Int) else 1) ≠ 0 ↔ ¬ p) := by
    intro p _
    split <;> simp [*]
  constructor
  · rintro ⟨t, out, hinit, -, happly⟩
    have hlen : (entries content).length ≤ 99 := by
      by_contra hlong
      rw [init_error hnul t₀ (Nat.lt_of_not_le hlong)] at hinit
      cases hinit
    obtain ⟨t', out', hinit', htake⟩ := init_ok hnul t₀ hlen
    obtain ⟨rfl, rfl⟩ := Prod.mk.inj (Except.ok.inj (hinit'.symm.trans hinit))
    refine ⟨hlen, fun name => ?_⟩
    obtain ⟨r, hr, hiff⟩ := happly name
    rw [apply_eq htake] at hr
    rw [← Except.ok.inj hr, hzero] at hiff
    exact not_iff_not.mp (by simpa using hiff)
  · rintro ⟨hlen, hsame⟩
    obtain ⟨t, out, hinit, htake⟩ := init_ok hnul t₀ hlen
    refine ⟨t, out, hinit, ⟨entries content, htake⟩, fun name => ⟨_, apply_eq htake name, ?_⟩⟩
    rw [hzero, hsame]
    simp

/-- A line that fits one piece has its own word for an entry. -/
theorem flatMap_word {l : Str} (h : l.length ≤ 255) : (chunks 255 l).flatMap word = word l :=
  Stdio.flatMap_chunks word_nil (by decide) h

/-- **The filter blocks exactly the listed words** if and only if at most 99 pieces become entries,
and of the lines with more than 255 characters each entry contains a listed word and the word
contains an entry. -/
theorem blocks_iff (hnul : '\x00' ∉ content) (t₀ : CacheFilter) : BlocksListed t₀ content ↔
    (entries content).length ≤ 99 ∧ ∀ l ∈ lines content, 255 < l.length →
      (∀ e ∈ (chunks 255 l).flatMap word, ∃ w ∈ listed content, w <:+: e) ∧
        ∀ w ∈ word l, ∃ e ∈ entries content, e <:+: w := by
  rw [blocksListed_iff hnul, blocks_same_iff]
  refine and_congr_right fun _ => ⟨fun ⟨hes, hws⟩ l hl _ => ⟨fun e he => ?_, fun w hw => ?_⟩,
    fun h => ⟨fun e he => ?_, fun w hw => ?_⟩⟩
  · exact hes e (List.mem_flatMap_of_mem hl he)
  · exact hws w (List.mem_flatMap_of_mem hl hw)
  · obtain ⟨l, hl, hel⟩ := List.mem_flatMap.mp he
    by_cases hlong : 255 < l.length
    · exact (h l hl hlong).1 e hel
    · rw [flatMap_word (Nat.le_of_not_lt hlong)] at hel
      exact ⟨e, List.mem_flatMap_of_mem hl hel, List.infix_rfl⟩
  · obtain ⟨l, hl, hwl⟩ := List.mem_flatMap.mp hw
    by_cases hlong : 255 < l.length
    · exact (h l hl hlong).2 w hwl
    · refine ⟨w, List.mem_flatMap_of_mem hl ?_, List.infix_rfl⟩
      rwa [flatMap_word (Nat.le_of_not_lt hlong)]

theorem entries_of_short (h : ∀ l ∈ lines content, l.length ≤ 255) :
    entries content = listed content :=
  List.flatMap_congr fun l hl => flatMap_word (h l hl)

/-- A comment and a word. -/
theorem blocks_twoLines : BlocksListed (Vector.replicate 100 none) "# taste\ndivx\n".toList := by
  have hshort : ∀ l ∈ lines "# taste\ndivx\n".toList, l.length ≤ 255 := by decide
  refine (blocks_iff (by decide) _).mpr ⟨?_, fun l hl hlong => ?_⟩
  · rw [entries_of_short hshort]
    decide
  · exact absurd hlong (Nat.not_lt.mpr (hshort l hl))

def wordLines (n : Nat) : Str := (List.replicate n "a\n".toList).flatten

theorem entries_wordLines (n : Nat) : entries (wordLines n) = List.replicate n "a".toList := by
  have hword : (chunks 255 "a".toList).flatMap word = ["a".toList] := by
    rw [flatMap_word (by decide)]
    decide
  induction n with
  | zero => rfl
  | succ n ih =>
    have hline : wordLines (n + 1) = "a".toList ++ '\n' :: wordLines n := by
      simp [wordLines, List.replicate_succ]
    rw [hline, entries, Stdio.perPiece_line (by decide), hword, List.replicate_succ, ← ih]
    rfl

theorem nul_notMem_wordLines (n : Nat) : '\x00' ∉ wordLines n := by
  intro hc
  obtain ⟨l, hl, hc⟩ := List.mem_flatten.mp hc
  rw [List.eq_of_mem_replicate hl] at hc
  exact absurd hc (by decide)

/-- With 100 words `NULL` is written behind the array. -/
theorem hundred_words : ¬ ∀ t₀ content, '\x00' ∉ content → BlocksListed t₀ content := by
  intro h
  have hnul := nul_notMem_wordLines 100
  have hblocks := (blocksListed_iff hnul _).mp (h (Vector.replicate 100 none) _ hnul)
  rw [entries_wordLines, List.length_replicate] at hblocks
  omega

end Filter

end NetDJ.Gnut
