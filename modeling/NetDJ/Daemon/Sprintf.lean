import Mathlib.Data.Nat.Digits.Defs
import Mathlib.Tactic.Positivity
import NetDJ.Text

/-!
# Numbers in buffers

* `decimal` : what `%d` prints;
* `sprintf` : into a buffer of a given size, beyond which the code writes into other memory;
* `length_decimal_lt_iff` : which numbers fit.
-/

namespace NetDJ.Daemon

def decimal : Int → Str
  | .ofNat n => Nat.toDigits 10 n
  | .negSucc n => '-' :: Nat.toDigits 10 (n + 1)

/-- `sprintf` of a number into `char buf[size]`. -/
def sprintf (size : Nat) (n : Int) : Except Abort Str :=
  if (decimal n).length < size then .ok (decimal n) else .error .undefined

theorem sprintf_eq_ok {size : Nat} {n : Int} {s : Str} :
    sprintf size n = .ok s ↔ (decimal n).length < size ∧ s = decimal n := by
  unfold sprintf
  split
  · next h => exact ⟨fun he => ⟨h, (Except.ok.inj he).symm⟩, fun he => congrArg _ he.2.symm⟩
  · next h => exact iff_of_false nofun fun he => h he.1

theorem mem_decimal {n : Int} {ch : Char} (h : ch ∈ decimal n) : ch ∈ "-0123456789".toList := by
  have hdigits : ∀ n < 58, 48 ≤ n → Char.ofNat n ∈ "0123456789".toList := by decide
  have hdigit : ∀ n, ch ∈ Nat.toDigits 10 n → ch ∈ "0123456789".toList := by
    intro n hn
    obtain ⟨hle, hlt⟩ := Char.isDigit_iff_toNat.mp
      (Nat.isDigit_of_mem_toDigits (by decide) (by decide) hn)
    rw [← Char.ofNat_toNat ch]
    exact hdigits ch.toNat (Nat.lt_succ_of_le hlt) hle
  cases n with
  | ofNat n => exact List.mem_cons_of_mem _ (hdigit n h)
  | negSucc n =>
    rcases List.mem_cons.mp h with rfl | h
    · exact List.mem_cons_self
    · exact List.mem_cons_of_mem _ (hdigit (n + 1) h)

theorem decimal_ne_nil (n : Int) : decimal n ≠ [] := by
  cases n with
  | ofNat n => exact Nat.toDigits_ne_nil
  | negSucc n => exact List.cons_ne_nil _ _

theorem minus_notMem_decimal (n : Nat) : '-' ∉ decimal n := fun h =>
  absurd (Nat.isDigit_of_mem_toDigits (by decide) (by decide) h) (by decide)

theorem toDigits_inj {m n : Nat} (h : Nat.toDigits 10 m = Nat.toDigits 10 n) : m = n := by
  rw [← Nat.ofDigitChars_toDigits (b := 10) (n := m) (by decide) (by decide), h,
    Nat.ofDigitChars_toDigits (by decide) (by decide)]

theorem decimal_inj {m n : Int} (h : decimal m = decimal n) : m = n := by
  cases m with
  | ofNat m =>
    cases n with
    | ofNat n => exact congrArg Int.ofNat (toDigits_inj h)
    | negSucc n =>
      refine absurd ?_ (minus_notMem_decimal m)
      show '-' ∈ decimal (Int.ofNat m)
      rw [h]
      exact List.mem_cons_self
  | negSucc m =>
    cases n with
    | ofNat n =>
      refine absurd ?_ (minus_notMem_decimal n)
      show '-' ∈ decimal (Int.ofNat n)
      rw [← h]
      exact List.mem_cons_self
    | negSucc n => exact congrArg Int.negSucc (Nat.succ.inj (toDigits_inj (List.cons.inj h).2))

theorem length_decimal_le {n k : Nat} (hk : 0 < k) (hn : n < 10 ^ k) : (decimal n).length ≤ k :=
  Nat.toDigits_length 10 n k hk hn

/-- A sign and `k` digits, or `k + 1` digits. -/
theorem length_decimal_lt_iff {n : Int} {k : Nat} (hk : 0 < k) :
    (decimal n).length < k + 2 ↔ -10 ^ k < n ∧ n < 10 ^ (k + 1) := by
  have hdigits : ∀ {m j : Nat}, 0 < j → ((Nat.toDigits 10 m).length ≤ j ↔ m < 10 ^ j) :=
    fun h => Nat.length_toDigits_le_iff (by decide) h
  have hpow : ∀ j, ((10 ^ j : Nat) : Int) = 10 ^ j := fun j => by simp
  have hpos : (0 : Int) < 10 ^ k := by positivity
  have hpos' : (0 : Int) < 10 ^ (k + 1) := by positivity
  cases n with
  | ofNat m =>
    have h := hdigits (m := m) (Nat.succ_pos k)
    rw [← Int.ofNat_lt, hpow] at h
    rw [decimal, Nat.lt_succ_iff, h]
    exact ⟨fun hm => ⟨lt_of_lt_of_le (neg_lt_zero.mpr hpos) (Int.natCast_nonneg m), hm⟩, And.right⟩
  | negSucc m =>
    have h := hdigits (m := m + 1) hk
    rw [← Int.ofNat_lt, hpow] at h
    rw [decimal, List.length_cons, Nat.lt_succ_iff, Nat.succ_le_succ_iff, h, Int.negSucc_eq]
    push_cast
    exact ⟨fun hm => ⟨by omega, by omega⟩, fun hm => by omega⟩

/-- A number that fits ten bytes with its NUL. -/
def Narrow (n : Int) : Prop := -10 ^ 8 < n ∧ n < 10 ^ 9

theorem narrow_iff {n : Int} : Narrow n ↔ (decimal n).length < 10 :=
  (length_decimal_lt_iff (by decide)).symm

theorem narrow_zero : Narrow 0 := ⟨by decide, by decide⟩

theorem narrow_of_lt {n : Nat} (h : n < 10 ^ 9) : Narrow n := ⟨by omega, by omega⟩

end NetDJ.Daemon
