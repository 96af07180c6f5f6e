import Mathlib.Data.List.Induction
import NetDJ.Daemon.Sprintf
import NetDJ.Engine.AccessChecker

/-!
# Levels in the user file

The level of a line is parsed as an `int` and stored as an `unsigned int`.

* `toInt_decimal` : `toInt` reads what is printed as a number;
* `lookup_init` : the table has the last line of each name that is accepted;
* `level_le_iff` : what an unsigned level compares like;
* `levels_iff` : when a file lets in those whose level is high enough.
-/

namespace NetDJ.Engine

open Daemon (decimal decimal_inj mem_decimal)

/-! ## Numbers -/

theorem stripWhiteSpace_eq_self {s : Str} (h : ∀ c ∈ s, isSpace c = false) :
    stripWhiteSpace s = s := by
  have hdrop : ∀ t : Str, (∀ c ∈ t, isSpace c = false) → t.dropWhile isSpace = t := by
    intro t ht
    cases t with
    | nil => rfl
    | cons c t => exact List.dropWhile_cons_of_neg (by simp [ht c List.mem_cons_self])
  rw [stripWhiteSpace, hdrop s h, hdrop, List.reverse_reverse]
  exact fun c hc => h c (List.mem_reverse.mp hc)

theorem isSpace_decimal {l : Int} : ∀ c ∈ decimal l, isSpace c = false := by
  have hall : ∀ c ∈ "-0123456789".toList, isSpace c = false := by decide
  exact fun c hc => hall c (mem_decimal hc)

theorem all_isDigit_toDigits (n : Nat) : (Nat.toDigits 10 n).all Char.isDigit = true :=
  List.all_eq_true.mpr fun _ hc => Nat.isDigit_of_mem_toDigits (by decide) (by decide) hc

theorem foldl_toDigits (n : Nat) :
    (Nat.toDigits 10 n).foldl (fun n c => 10 * n + (c.toNat - 48)) 0 = n :=
  Nat.ofDigitChars_ten_toDigits

/-- A number is read as it was printed. -/
theorem toInt_decimal {l : Int} (hlo : -2 ^ 31 ≤ l) (hhi : l < 2 ^ 31) : toInt (decimal l) = l := by
  unfold toInt
  rw [stripWhiteSpace_eq_self isSpace_decimal]
  cases l with
  | ofNat n =>
    have hhead : ∀ c, c.isDigit = false → (Nat.toDigits 10 n).head? ≠ some c := by
      intro c hc he
      have := Nat.isDigit_of_mem_toDigits (by decide) (by decide) (List.mem_of_head? he)
      rw [hc] at this
      cases this
    have hn : n < 2 ^ 31 := by
      have : (n : Int) < 2 ^ 31 := hhi
      omega
    rw [decimal]
    simp only [hhead '-' rfl, hhead '+' rfl, or_self, if_false, foldl_toDigits]
    rw [if_pos ⟨Nat.toDigits_ne_nil, all_isDigit_toDigits n⟩, if_pos hn]
    rfl
  | negSucc n =>
    have hn : n + 1 ≤ 2 ^ 31 := by omega
    rw [decimal]
    simp only [List.head?_cons, true_or, if_true, List.tail_cons, foldl_toDigits]
    rw [if_pos ⟨Nat.toDigits_ne_nil, all_isDigit_toDigits (n + 1)⟩, if_pos hn]
    rfl

/-! ## The lines of the file -/

/-- A line that `Init` accepts. -/
structure UserLine where
  name : Str
  password : Str
  level : Str
  deriving DecidableEq

def UserLine.info (u : UserLine) : UserInfo := ⟨u.password, BitVec.ofInt 32 (toInt u.level)⟩

/-- What `Init` makes of a line, `none` where it goes on to the next one. -/
def userLine (line : Str) : Option UserLine :=
  let name := stripWhiteSpace (qsection line ':' 0 (some 0))
  let password := stripWhiteSpace (qsection line ':' 1 (some 1))
  let level := stripWhiteSpace (qsection line ':' 2 none)
  if line = [] ∨ line.head? = some '#' then none
  else if name ≠ [] ∧ password ≠ [] ∧ level ≠ [] then some ⟨name, password, level⟩
  else none

def lastLine (lines : List Str) (name : Str) : Option UserLine :=
  (lines.filterMap userLine).reverse.find? (·.name = name)

theorem lastLine_append (lines : List Str) (line name : Str) :
    lastLine (lines ++ [line]) name =
      ((userLine line).filter (·.name = name)).or (lastLine lines name) := by
  unfold lastLine
  rw [List.filterMap_append, List.reverse_append]
  cases h : userLine line with
  | none => simp [h]
  | some u =>
    by_cases hu : u.name = name <;> simp [h, hu, Option.filter]

namespace SimpleAccessChecker

theorem lookup_initLine (a : SimpleAccessChecker) (line name : Str) :
    (a.initLine line).mUsers.lookup name =
      (((userLine line).filter (·.name = name)).map UserLine.info).or (a.mUsers.lookup name) := by
  unfold initLine userLine
  dsimp only
  split
  · rfl
  · split
    · next h =>
      show (a.mUsers.insert _ _).lookup name = _
      by_cases hname : name = stripWhiteSpace (qsection line ':' 0 (some 0))
      · rw [hname, AList.lookup_insert, Option.filter_some, if_pos (decide_eq_true rfl)]
        rfl
      · rw [AList.lookup_insert_ne hname, Option.filter_some, if_neg]
        · rfl
        · simpa using Ne.symm hname
    · rfl

theorem lookup_init (lines : List Str) (name : Str) :
    (init lines).mUsers.lookup name = (lastLine lines name).map UserLine.info := by
  induction lines using List.reverseRecOn with
  | nil => rfl
  | append_singleton lines line ih =>
    rw [init, List.foldl_append, lastLine_append]
    show ((init lines).initLine line).mUsers.lookup name = _
    rw [lookup_initLine, ih, Option.map_or]

/-! ## The levels -/

/-- A level below 0 is stored as one that is 2^32 greater. -/
theorem level_le_iff {n : BitVec 32} {l : Int} (hlo : -2 ^ 31 ≤ l) (hhi : l < 2 ^ 31) :
    n ≤ BitVec.ofInt 32 l ↔ (n.toNat : Int) ≤ if 0 ≤ l then l else l + 2 ^ 32 := by
  rw [BitVec.le_def, BitVec.toNat_ofInt]
  split <;> omega

/-- **A file lets in those whose level is high enough, but for a last line that has the password and
a level below 0**, which lets in up to a level of 2^32 more. -/
theorem levels_iff {lines : List Str}
    (hlines : ∀ u ∈ lines.filterMap userLine,
      ∃ l : Int, u.level = decimal l ∧ -2 ^ 31 ≤ l ∧ l < 2 ^ 31)
    (name password : Str) (n : BitVec 32) :
    ((init lines).hasAccess name password n = true ↔
      ∃ l : Int, lastLine lines name = some ⟨name, password, decimal l⟩ ∧ (n.toNat : Int) ≤ l) ↔
    ∀ l : Int, lastLine lines name = some ⟨name, password, decimal l⟩ →
      0 ≤ l ∨ l + 2 ^ 32 < n.toNat := by
  rw [hasAccess_iff, lookup_init]
  cases hlast : lastLine lines name with
  | none => simp
  | some u =>
    obtain rfl : u.name = name := by simpa using List.find?_some hlast
    obtain ⟨l, hl, hlo, hhi⟩ :=
      hlines u (List.mem_reverse.mp (List.mem_of_find?_eq_some hlast))
    have hinfo : (∃ info, Option.map UserLine.info (some u) = some info ∧
        info.mPassword = password ∧ n ≤ info.mLevel) ↔
        u.password = password ∧ (n.toNat : Int) ≤ if 0 ≤ l then l else l + 2 ^ 32 := by
      rw [← level_le_iff hlo hhi, ← toInt_decimal hlo hhi, ← hl]
      simp [UserLine.info]
    have hline : ∀ l', some u = some ⟨u.name, password, decimal l'⟩ ↔
        u.password = password ∧ l' = l := by
      intro l'
      constructor
      · intro h
        have hu := Option.some.inj h
        have hlevel : u.level = decimal l' := congrArg UserLine.level hu
        exact ⟨congrArg UserLine.password hu, decimal_inj (hlevel.symm.trans hl)⟩
      · rintro ⟨rfl, rfl⟩
        rw [← hl]
    simp only [hinfo, hline]
    by_cases hp : u.password = password
    · simp only [hp, true_and, forall_eq, exists_eq_left]
      split <;> omega
    · simp [hp]

/-- The last of two lines counts. -/
theorem levels_last : (init ["a:x:9".toList, "a:b:5".toList]).hasAccess "a".toList "b".toList 5 =
    true := by
  refine ((@levels_iff ["a:x:9".toList, "a:b:5".toList] ?_ "a".toList "b".toList 5).mpr
    fun l hl => ?_).mpr ⟨5, by decide, by decide⟩
  · intro u hu
    rcases List.mem_pair.mp (show u ∈ [_, _] from hu) with rfl | rfl
    · exact ⟨9, by decide, by decide, by decide⟩
    · exact ⟨5, by decide, by decide, by decide⟩
  · have hlevel := congrArg UserLine.level (Option.some.inj hl)
    obtain rfl : (5 : Int) = l := decimal_inj hlevel
    exact .inl (by decide)

/-- A level of -1 lets in to everything. -/
theorem minus_one_allowed : ¬ ((init ["a:b:-1".toList]).hasAccess "a".toList "b".toList 1000 = true ↔
    ∃ l : Int, lastLine ["a:b:-1".toList] "a".toList =
      some ⟨"a".toList, "b".toList, decimal l⟩ ∧ 1000 ≤ l) := by
  rintro ⟨h, -⟩
  obtain ⟨l, hl, hle⟩ := h (by decide)
  obtain rfl : (-1 : Int) = l := decimal_inj (congrArg UserLine.level (Option.some.inj hl))
  exact absurd hle (by decide)

end SimpleAccessChecker

end NetDJ.Engine
