import Mathlib.Data.Char
import Mathlib.Data.List.AList
import Mathlib.Data.List.Lex
import Mathlib.Data.List.Sort
import Mathlib.Data.List.TakeWhile

/-!
# Strings, maps and the ways a call can fail

`std::string`, `QString` and C strings are lists of characters. A `char` of the C++ code is the
character with its code, 0 to 255. A `std::map` is an association list without repeated keys.
-/

namespace NetDJ

abbrev Str := List Char

instance (s : Str) (l : List Str) : Decidable (s ∈ l) := inferInstance

/-- Decided on the characters of the text. -/
instance (s : Str) (p : Char → Prop) [DecidablePred p] : Decidable (∀ c ∈ s, p c) :=
  List.decidableBAll p s

abbrev StdMap (κ ν : Type) := AList fun _ : κ => ν

/-- After `m[key x] = val x` for each `x` of a list, a key has the last value it was given. -/
theorem lookup_foldl_insert {κ ν β : Type} [DecidableEq κ] (key : β → κ) (val : β → ν) (l : List β)
    (m : StdMap κ ν) (k : κ) : (l.foldl (fun m x => m.insert (key x) (val x)) m).lookup k =
      ((l.reverse.find? (key · = k)).map val).or (m.lookup k) := by
  induction l generalizing m with
  | nil => rfl
  | cons x l ih =>
    rw [List.foldl_cons, ih, List.reverse_cons, List.find?_append]
    cases l.reverse.find? (key · = k) with
    | some y => rfl
    | none =>
      by_cases hk : key x = k
      · subst hk
        simp
      · rw [AList.lookup_insert_ne (Ne.symm hk)]
        simp [hk]

/-! ## Maps that are filled by a loop over lines -/

section Entries
variable {κ ν β γ : Type} [DecidableEq κ] {entry : β → Option (κ × ν)} {k : κ}

/-- `m[key] = value` for an entry, if there is one. -/
def StdMap.put (m : StdMap κ ν) (e : Option (κ × ν)) : StdMap κ ν :=
  e.elim m fun e => m.insert e.1 e.2

/-- The value that a key has by the last of the entries of a list. -/
def lastEntry (entry : β → Option (κ × ν)) (l : List β) (k : κ) : Option ν :=
  ((l.filterMap entry).reverse.find? (·.1 = k)).map (·.2)

theorem lastEntry_append (l l' : List β) :
    lastEntry entry (l ++ l') k = (lastEntry entry l' k).or (lastEntry entry l k) := by
  rw [lastEntry, List.filterMap_append, List.reverse_append, List.find?_append, Option.map_or]
  rfl

theorem lookup_foldl_put (l : List β) (m : StdMap κ ν) :
    (l.foldl (fun m x => StdMap.put m (entry x)) m).lookup k =
      (lastEntry entry l k).or (m.lookup k) := by
  have hput : l.foldl (fun m x => StdMap.put m (entry x)) m =
      (l.filterMap entry).foldl (fun m e => m.insert e.1 e.2) m := by
    rw [List.foldl_filterMap]
    congr 1
    funext m x
    cases h : entry x with
    | none => rfl
    | some e => rfl
  rw [hput, lookup_foldl_insert]
  rfl

theorem exists_of_lastEntry {l : List β} {v : ν} (h : lastEntry entry l k = some v) :
    ∃ x ∈ l, entry x = some (k, v) := by
  obtain ⟨e, he, rfl⟩ := Option.map_eq_some_iff.mp h
  obtain ⟨x, hx, hentry⟩ := List.mem_filterMap.mp (List.mem_reverse.mp (List.mem_of_find?_eq_some he))
  obtain rfl : e.1 = k := by simpa using List.find?_some he
  exact ⟨x, hx, hentry⟩

theorem lastEntry_eq_none_iff {l : List β} :
    lastEntry entry l k = none ↔ ∀ x ∈ l, ∀ e ∈ entry x, e.1 ≠ k := by
  simp only [lastEntry, Option.map_eq_none_iff, List.find?_eq_none, List.mem_reverse,
    List.mem_filterMap, decide_eq_true_eq]
  exact ⟨fun h x hx e he => h e ⟨x, hx, he⟩, fun h e ⟨x, hx, he⟩ => h x hx e he⟩

theorem lastEntry_split {before after : List β} {x : β} {v : ν} (hx : entry x = some (k, v))
    (hafter : ∀ y ∈ after, ∀ e ∈ entry y, e.1 ≠ k) :
    lastEntry entry (before ++ x :: after) k = some v := by
  rw [← List.singleton_append, lastEntry_append, lastEntry_append,
    lastEntry_eq_none_iff.mpr hafter]
  simp [lastEntry, hx]

theorem lastEntry_congr {entry' : β → Option (κ × ν)} {l : List β}
    (h : ∀ x ∈ l, (entry x).filter (·.1 = k) = (entry' x).filter (·.1 = k)) :
    lastEntry entry l k = lastEntry entry' l k := by
  rw [lastEntry, lastEntry, ← List.getLast?_filter, ← List.getLast?_filter, List.filter_filterMap,
    List.filter_filterMap, List.filterMap_congr h]

end Entries

/-- The entries in the order of the keys, which is that of an iterator. -/
def StdMap.sorted {ν : Type} (m : StdMap Str ν) : List (Str × ν) :=
  (m.entries.map fun e => (e.1, e.2)).insertionSort fun a b => a.1 ≤ b.1

section Sorted
variable {ν : Type} {m m' : StdMap Str ν}

theorem mem_sorted {e : Str × ν} : e ∈ StdMap.sorted m ↔ m.lookup e.1 = some e.2 := by
  rw [StdMap.sorted, List.mem_insertionSort, List.mem_map, ← Option.mem_def, AList.mem_lookup_iff]
  constructor
  · rintro ⟨x, hx, rfl⟩
    exact hx
  · exact fun he => ⟨⟨e.1, e.2⟩, he, rfl⟩

theorem nodup_sorted (m : StdMap Str ν) : ((StdMap.sorted m).map (·.1)).Nodup := by
  have hkeys : (m.entries.map fun e => e.1).Nodup := m.nodupKeys
  refine (((List.perm_insertionSort _ _).map _).nodup_iff).mpr ?_
  rw [List.map_map]
  exact hkeys

/-- The iterator goes by what the map holds. -/
theorem sorted_congr (h : ∀ k, m.lookup k = m'.lookup k) : StdMap.sorted m = StdMap.sorted m' := by
  have : Std.Total fun a b : Str × ν => a.1 ≤ b.1 := ⟨fun a b => le_total a.1 b.1⟩
  have : IsTrans (Str × ν) fun a b => a.1 ≤ b.1 := ⟨fun _ _ _ => le_trans⟩
  have hmem : ∀ e, e ∈ StdMap.sorted m ↔ e ∈ StdMap.sorted m' := by
    intro e
    rw [mem_sorted, mem_sorted, h]
  refine @List.Perm.eq_of_pairwise _ (fun a b => a.1 ≤ b.1) _ _ (fun a b ha hb hab hba => ?_)
    (List.pairwise_insertionSort _ _) (List.pairwise_insertionSort _ _)
    ((List.perm_ext_iff_of_nodup (nodup_sorted m).of_map (nodup_sorted m').of_map).mpr hmem)
  have hkey := le_antisymm hab hba
  rw [mem_sorted] at ha
  rw [← hmem, mem_sorted, ← hkey, ha] at hb
  exact Prod.ext hkey (Option.some.inj hb)

/-- A map that is filled from the entries of another one holds the same. -/
theorem lookup_foldl_sorted (m : StdMap Str ν) (k : Str) :
    ((StdMap.sorted m).foldl (fun m e => m.insert e.1 e.2) (∅ : StdMap Str ν)).lookup k =
      m.lookup k := by
  rw [lookup_foldl_insert, AList.lookup_empty, Option.or_none]
  cases hfind : (StdMap.sorted m).reverse.find? (·.1 = k) with
  | none =>
    rw [List.find?_eq_none] at hfind
    cases hk : m.lookup k with
    | none => rfl
    | some v =>
      have hmem : (k, v) ∈ (StdMap.sorted m).reverse := List.mem_reverse.mpr (mem_sorted.mpr hk)
      exact absurd (decide_eq_true rfl) (hfind (k, v) hmem)
  | some e =>
    have hk : e.1 = k := by simpa using List.find?_some hfind
    subst hk
    exact (mem_sorted.mp (List.mem_reverse.mp (List.mem_of_find?_eq_some hfind))).symm

end Sorted

/-- What `c_str()` hands to a C function: the text up to the first NUL. -/
def cStr (s : Str) : Str := s.takeWhile (· ≠ '\x00')

theorem cStr_eq_self {s : Str} (h : '\x00' ∉ s) : cStr s = s :=
  List.takeWhile_eq_self_iff.mpr fun _ hc => decide_eq_true (ne_of_mem_of_not_mem hc h)

theorem cStr_append {s : Str} (h : '\x00' ∉ s) (t : Str) : cStr (s ++ t) = s ++ cStr t :=
  List.takeWhile_append_of_pos fun _ hc => decide_eq_true (ne_of_mem_of_not_mem hc h)

theorem exists_cStr_append (s : Str) : ∃ t, s = cStr s ++ t :=
  ⟨s.dropWhile (· ≠ '\x00'), List.takeWhile_append_dropWhile.symm⟩

theorem nul_notMem_cStr (s : Str) : '\x00' ∉ cStr s := fun h =>
  of_decide_eq_true (List.mem_takeWhile_imp (p := (· ≠ '\x00')) h) rfl

theorem cStr_drop {s : Str} {n : Nat} (h : n ≤ (cStr s).length) :
    cStr (s.drop n) = (cStr s).drop n := by
  obtain ⟨t, ht⟩ := exists_cStr_append s
  have hnul : '\x00' ∉ (cStr s).take n := fun hc => nul_notMem_cStr s (List.mem_of_mem_take hc)
  have hs : s = (cStr s).take n ++ s.drop n := by
    conv_lhs => rw [← List.take_append_drop n s]
    congr 1
    conv_lhs => rw [ht]
    exact List.take_append_of_le_length h
  have hcut : cStr s = (cStr s).take n ++ cStr (s.drop n) := by
    conv_lhs => rw [hs]
    exact cStr_append hnul _
  exact List.append_cancel_left (hcut.symm.trans (List.take_append_drop n (cStr s)).symm)

/-- A C string ends at its first NUL. -/
theorem cStr_append_nul (s t : Str) : cStr (s ++ '\x00' :: t) = cStr s := by
  induction s with
  | nil => rfl
  | cons c s ih =>
    rw [List.cons_append, cStr, cStr, List.takeWhile_cons, List.takeWhile_cons]
    split
    · exact congrArg _ ih
    · rfl

def strstr (hay needle : Str) : Bool := hay.tails.any needle.isPrefixOf

/-- Why a call of the C++ code does not come back with a value. -/
inductive Abort where
  /-- `exit(code)`. -/
  | exit (code : Nat)
  /-- `std::out_of_range` from `substr`. -/
  | outOfRange
  /-- The standard says nothing: an element of an empty container, an index outside an array. -/
  | undefined
  deriving DecidableEq, Repr

section Results
variable {α β : Type} {x : Except Abort α} {a : α} {b : β}

theorem bind_eq_ok {f : α → Except Abort β} : x >>= f = .ok b ↔ ∃ a, x = .ok a ∧ f a = .ok b := by
  cases x with
  | error a => exact iff_of_false nofun fun ⟨_, h, _⟩ => nomatch h
  | ok a => exact ⟨fun h => ⟨a, rfl, h⟩, fun ⟨_, h, h'⟩ => by cases h; exact h'⟩

theorem map_eq_ok {f : α → β} : x.map f = .ok b ↔ ∃ a, x = .ok a ∧ f a = b := by
  cases x with
  | error a => exact iff_of_false nofun fun ⟨_, h, _⟩ => nomatch h
  | ok a => exact ⟨fun h => ⟨a, rfl, Except.ok.inj h⟩, fun ⟨_, h, h'⟩ => by cases h; rw [← h']; rfl⟩

theorem toOption_eq_some : x.toOption = some a ↔ x = .ok a := by
  cases x with
  | error a => exact iff_of_false nofun nofun
  | ok a => exact ⟨fun h => congrArg _ (Option.some.inj h), fun h => congrArg _ (Except.ok.inj h)⟩

theorem isSome_toOption : x.toOption.isSome = true ↔ ∃ a, x = .ok a := by
  rw [Option.isSome_iff_exists]
  exact exists_congr fun a => toOption_eq_some

end Results

def substr (s : Str) (pos : Nat) : Except Abort Str :=
  if pos ≤ s.length then .ok (s.drop pos) else .error .outOfRange

end NetDJ
