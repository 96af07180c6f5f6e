import Mathlib.Data.BitVec
import Mathlib.Data.List.Nodup
import Mathlib.Tactic.Abel

/-!
# Windows of a counter

The values a counter took last, the newest at the end. In a ring with finitely many values the
counter comes back to its old values, but not within a window shorter than its period.

* `window last n` : the last `n` values of a counter that stands at `last`;
* `window_add_one`, `window_succ` : a value enters at the end, the oldest stands at the front;
* `nodup_window` : no value is there twice if no multiple of one below the length is zero.
-/

section Window
variable {α : Type*} [AddCommGroupWithOne α]

/-- The last `n` values of a counter at `last`. -/
def window (last : α) : Nat → List α
  | 0 => []
  | n + 1 => window (last - 1) n ++ [last]

@[simp] theorem window_zero (last : α) : window last 0 = [] := rfl

theorem window_add_one (last : α) (n : Nat) :
    window (last + 1) (n + 1) = window last n ++ [last + 1] := by
  rw [window, add_sub_cancel_right]

theorem window_succ (last : α) (n : Nat) :
    window last (n + 1) = (last - (n : α)) :: window last n := by
  induction n generalizing last with
  | zero => simp [window]
  | succ n ih =>
    rw [window, ih (last - 1), window, List.cons_append]
    congr 1
    rw [Nat.cast_add, Nat.cast_one]
    abel

theorem mem_window {last x : α} {n : Nat} (h : x ∈ window last n) :
    ∃ i < n, x = last - (i : α) := by
  induction n with
  | zero => simp at h
  | succ n ih =>
    rw [window_succ, List.mem_cons] at h
    rcases h with h | h
    · exact ⟨n, Nat.lt_succ_self n, h⟩
    · obtain ⟨i, hi, hx⟩ := ih h
      exact ⟨i, Nat.lt_succ_of_lt hi, hx⟩

/-- Within its period the counter takes no value twice. -/
theorem nodup_window (last : α) {n : Nat} (h : ∀ i, 0 < i → i < n → (i : α) ≠ 0) :
    (window last n).Nodup := by
  induction n with
  | zero => simp
  | succ n ih =>
    rw [window_succ, List.nodup_cons]
    refine ⟨fun hmem => ?_, ih fun i hpos hi => h i hpos (Nat.lt_succ_of_lt hi)⟩
    obtain ⟨i, hi, hx⟩ := mem_window hmem
    -- The two places are `n - i` steps of the counter apart.
    apply h (n - i) (Nat.sub_pos_of_lt hi) (by omega)
    rw [Nat.cast_sub hi.le, sub_right_injective hx, sub_self]

end Window

/-- A counter of `w` bits takes no value twice within `2 ^ w` steps. -/
theorem nodup_window_bitVec {w : Nat} (last : BitVec w) {n : Nat} (h : n ≤ 2 ^ w) :
    (window last n).Nodup := by
  apply nodup_window
  intro i hpos hi hzero
  have hval : (BitVec.ofNat w i).toNat = (0 : BitVec w).toNat := by
    rw [← BitVec.natCast_eq_ofNat, hzero]
  rw [BitVec.toNat_ofNat, Nat.mod_eq_of_lt (by omega)] at hval
  simp at hval
  omega
