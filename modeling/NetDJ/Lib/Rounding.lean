import Mathlib.Data.Nat.Log
import Mathlib.Tactic.Ring

/-!
# Rounding to a number of significant bits

Natural numbers, rounded to the nearest number of `p` significant bits, at a tie to the one with the
even last bit.

* `nearest u m` : the multiple of `u` nearest to `m` (`nearest_le`, `nearest_mono`);
* `ulp p m` : the distance of the numbers of `p` significant bits around `m`;
* `round p m` : the rounded number;
* `round_mul_two_pow` : a number of `p` significant bits is kept;
* `round_mono` : rounding keeps the order;
* `round_mul_lt` : a product with a factor that rounds to less than a power of two stays below the
  product with that power.
-/

namespace Rounding

/-- The multiple of `u` nearest to `m`, at a tie the even one. -/
def nearest (u m : Nat) : Nat :=
  let down := m / u * u
  if 2 * (m - down) < u then down
  else if u < 2 * (m - down) then down + u
  else if m / u % 2 = 0 then down
  else down + u

/-- The distance of two numbers of `p` significant bits around `m`. -/
def ulp (p m : Nat) : Nat := 2 ^ (m.log2 + 1 - p)

/-- `m` rounded to `p` significant bits. -/
def round (p m : Nat) : Nat := nearest (ulp p m) m

section Nearest
variable {u m m' : Nat}

theorem nearest_cases (u m : Nat) :
    nearest u m = m / u * u ∧ 2 * (m - m / u * u) ≤ u ∨
      nearest u m = m / u * u + u ∧ u ≤ 2 * (m - m / u * u) := by
  unfold nearest
  dsimp only
  split_ifs <;> omega

theorem nearest_le (u m : Nat) : 2 * nearest u m ≤ 2 * m + u := by
  have hdown := Nat.div_mul_le_self m u
  rcases nearest_cases u m with ⟨h, _⟩ | ⟨h, _⟩ <;> omega

theorem nearest_of_dvd (hu : 0 < u) (h : u ∣ m) : nearest u m = m := by
  have hcases := nearest_cases u m
  rw [Nat.div_mul_cancel h, Nat.sub_self] at hcases
  omega

theorem nearest_mono (hu : 0 < u) (h : m ≤ m') : nearest u m ≤ nearest u m' := by
  have hdown := Nat.div_mul_le_self m u
  have hdown' := Nat.div_mul_le_self m' u
  rcases (Nat.div_le_div_right (c := u) h).eq_or_lt with hq | hq
  · unfold nearest
    rw [hq] at hdown ⊢
    dsimp only
    split_ifs <;> omega
  · have hnext : m / u * u + u ≤ m' / u * u := by
      rw [← Nat.succ_mul]
      exact Nat.mul_le_mul_right u hq
    rcases nearest_cases u m with ⟨h₁, _⟩ | ⟨h₁, _⟩ <;>
      rcases nearest_cases u m' with ⟨h₂, _⟩ | ⟨h₂, _⟩ <;> omega

end Nearest

section Round
variable {p m m' : Nat}

theorem ulp_pos (p m : Nat) : 0 < ulp p m := Nat.two_pow_pos _

/-- Rounding adds at most half the distance. -/
theorem round_le (p m : Nat) : 2 * round p m ≤ 2 * m + ulp p m := nearest_le (ulp p m) m

/-- Below `n * 2 ^ (p + k)` the distance is at most twice the power of two in `n`, times `2 ^ k`. -/
theorem ulp_le_of_lt_mul {k n : Nat} (h : m < n * 2 ^ (p + k)) :
    ulp p m ≤ 2 * (2 ^ n.log2 * 2 ^ k) := by
  have hlog : m.log2 ≤ n.log2 + p + k := by
    rw [Nat.log2_eq_log_two, Nat.log2_eq_log_two, ← Nat.lt_succ_iff]
    apply Nat.log_lt_of_lt_pow'
    · omega
    · have hself : n < 2 ^ (Nat.log 2 n + 1) := Nat.lt_pow_succ_log_self (by decide) n
      calc m < n * 2 ^ (p + k) := h
        _ < 2 ^ (Nat.log 2 n + 1) * 2 ^ (p + k) :=
          Nat.mul_lt_mul_of_pos_right hself (Nat.two_pow_pos _)
        _ = 2 ^ (Nat.log 2 n + p + k).succ := by
          rw [← Nat.pow_add]
          congr 1
          omega
  rw [← Nat.pow_add, ← Nat.pow_succ']
  exact Nat.pow_le_pow_right (by decide) (by omega)

theorem round_mul_two_pow {a : Nat} (ha : a < 2 ^ p) (k : Nat) :
    round p (a * 2 ^ k) = a * 2 ^ k := by
  apply nearest_of_dvd (ulp_pos p _)
  rcases Nat.eq_zero_or_pos a with rfl | hpos
  · simp
  · have hne : a * 2 ^ k ≠ 0 := Nat.mul_ne_zero hpos.ne' (Nat.two_pow_pos k).ne'
    have hlog : (a * 2 ^ k).log2 < p + k := by
      rw [Nat.log2_lt hne, Nat.pow_add]
      exact Nat.mul_lt_mul_of_pos_right ha (Nat.two_pow_pos k)
    exact (Nat.pow_dvd_pow 2 (by omega)).trans (Nat.dvd_mul_left _ a)

theorem round_of_lt (h : m < 2 ^ p) : round p m = m := by
  simpa using round_mul_two_pow h 0

/-- Powers of two stay, seen from above and from below. -/
theorem nearest_two_pow (hp : 0 < p) {k : Nat} (h : m.log2 ≤ k) :
    nearest (ulp p m) (2 ^ k) = 2 ^ k :=
  nearest_of_dvd (ulp_pos p m) (Nat.pow_dvd_pow 2 (by omega))

theorem round_mono (hp : 0 < p) (h : m ≤ m') : round p m ≤ round p m' := by
  rcases Nat.lt_trichotomy m.log2 m'.log2 with hlog | hlog | hlog
  · have hne : m' ≠ 0 := by
      rintro rfl
      simp at hlog
    calc round p m ≤ nearest (ulp p m) (2 ^ (m.log2 + 1)) :=
          nearest_mono (ulp_pos p m) Nat.lt_log2_self.le
      _ = 2 ^ (m.log2 + 1) := nearest_two_pow hp (Nat.le_succ _)
      _ ≤ 2 ^ m'.log2 := Nat.pow_le_pow_right (by decide) hlog
      _ = nearest (ulp p m') (2 ^ m'.log2) := (nearest_two_pow hp le_rfl).symm
      _ ≤ round p m' := nearest_mono (ulp_pos p m') (Nat.log2_self_le hne)
  · rw [round, round, show ulp p m = ulp p m' by rw [ulp, hlog, ulp]]
    exact nearest_mono (ulp_pos p m') h
  · have hle : m.log2 ≤ m'.log2 := by
      rw [Nat.log2_eq_log_two, Nat.log2_eq_log_two]
      exact Nat.log_mono_right h
    omega

/-- The product with the greatest number of `p` significant bits below `2 ^ (p + k)` is not rounded
up to the product with `2 ^ (p + k)`. -/
theorem round_mul_lt (p k : Nat) {n : Nat} (hn : 0 < n) :
    round p (n * ((2 ^ p - 1) * 2 ^ k)) < n * 2 ^ (p + k) := by
  have hsum : n * ((2 ^ p - 1) * 2 ^ k) + n * 2 ^ k = n * 2 ^ (p + k) := by
    obtain ⟨a, ha⟩ := Nat.exists_eq_succ_of_ne_zero (Nat.two_pow_pos p).ne'
    rw [Nat.pow_add, ha, Nat.succ_sub_one, Nat.succ_eq_add_one]
    ring
  have hk : 0 < n * 2 ^ k := Nat.mul_pos hn (Nat.two_pow_pos k)
  by_cases hpow : n = 2 ^ n.log2
  · -- a power of two, so that the product has `p` significant bits
    have hexact : n * ((2 ^ p - 1) * 2 ^ k) = (2 ^ p - 1) * 2 ^ (n.log2 + k) := by
      rw [Nat.pow_add, ← hpow]
      ring
    have hlt : 2 ^ p - 1 < 2 ^ p := Nat.sub_lt (Nat.two_pow_pos p) Nat.one_pos
    rw [hexact, round_mul_two_pow hlt, ← hexact]
    omega
  · -- half the distance is less than what is missing
    have hulp : ulp p (n * ((2 ^ p - 1) * 2 ^ k)) ≤ 2 * (2 ^ n.log2 * 2 ^ k) :=
      ulp_le_of_lt_mul (by omega)
    have hself : 2 ^ n.log2 * 2 ^ k < n * 2 ^ k :=
      Nat.mul_lt_mul_of_pos_right ((Nat.log2_self_le hn.ne').lt_of_ne (Ne.symm hpow))
        (Nat.two_pow_pos k)
    have hround := round_le p (n * ((2 ^ p - 1) * 2 ^ k))
    omega

end Round

end Rounding
