import Mathlib.Order.Lattice
import Mathlib.Order.Defs.LinearOrder
import Mathlib.Data.List.Nodup
import Mathlib.Data.List.Pairwise

/-!
# Lists: the records of a list, and items by their key

A record is an item whose key is not below a mark and not below the key of an earlier record: what
a scan keeps that raises its mark to each item it keeps.

* `records`, `high` : the records, and the mark after the list;
* `records.sorted`, `records.le_of_mem`, `high.le_of_mem` : the keys of the records;
* `records.mem_iff` : an item is a record exactly if no earlier item has a larger key;
* `find?_key`, `filter_key` : an item is found by its key, if no two items share it;
* `eq_of_countP_le_one` : the place of the one item that passes a test.
-/

section Keyed
variable {α κ : Type*} [DecidableEq κ]

theorem find?_key {key : α → κ} {l : List α} (once : (l.map key).Nodup) {x : α} (hx : x ∈ l) :
    l.find? (fun y => key y = key x) = some x := by
  cases hf : l.find? fun y => key y = key x with
  | none =>
    have h := List.find?_eq_none.mp hf x hx
    simp at h
  | some y =>
    have hy : key y = key x := by simpa using List.find?_some hf
    rw [List.inj_on_of_nodup_map once (List.mem_of_find?_eq_some hf) hx hy]

/-- No other item has its key. -/
theorem filter_key {key : α → κ} {l : List α} (once : (l.map key).Nodup) {x : α} (hx : x ∈ l) :
    l.filter (fun y => key y = key x) = [x] := by
  induction l with
  | nil => exact absurd hx List.not_mem_nil
  | cons y ys ih =>
    obtain ⟨hy, hys⟩ := List.nodup_cons.mp once
    rcases List.mem_cons.mp hx with rfl | hx
    · rw [List.filter_cons_of_pos (by simp), List.filter_eq_nil_iff.mpr]
      intro z hz
      have hne : key z ≠ key x := fun h => hy (h ▸ List.mem_map_of_mem hz)
      simpa using hne
    · have hne : key y ≠ key x := fun h => hy (h ▸ List.mem_map_of_mem hx)
      rw [List.filter_cons_of_neg (by simpa using hne), ih hys hx]

end Keyed

/-- If at most one item of a list passes a test, then it stands in one place. -/
theorem eq_of_countP_le_one {α : Type*} {p : α → Bool} {l : List α} (h : l.countP p ≤ 1)
    {i j : Nat} {x y : α} (hi : l[i]? = some x) (hj : l[j]? = some y) (hx : p x = true)
    (hy : p y = true) : i = j := by
  induction l generalizing i j with
  | nil => cases hi
  | cons z l ih =>
    -- An item in the tail leaves no place for one at the head.
    have htail : ∀ (k : Nat) w, l[k]? = some w → p w = true → p z = false ∧ 0 < l.countP p := by
      intro k w hw hpw
      have hpos := List.countP_pos_iff.mpr ⟨w, List.mem_of_getElem? hw, hpw⟩
      refine ⟨?_, hpos⟩
      by_contra hz
      rw [List.countP_cons_of_pos (by simpa using hz)] at h
      omega
    cases i with
    | zero =>
      cases j with
      | zero => rfl
      | succ j =>
        obtain rfl := Option.some.inj hi
        obtain ⟨hz, -⟩ := htail j y hj hy
        rw [hx] at hz
        cases hz
    | succ i =>
      obtain ⟨hz, -⟩ := htail i x hi hx
      cases j with
      | zero =>
        obtain rfl := Option.some.inj hj
        rw [hy] at hz
        cases hz
      | succ j =>
        rw [List.countP_cons_of_neg (by simp [hz])] at h
        rw [ih h hi hj]

variable {α κ : Type*} [LinearOrder κ] (key : α → κ)

/-- The items whose key is not below the mark, which each of them raises to its own key. -/
def records (w : κ) : List α → List α
  | [] => []
  | x :: xs => if w ≤ key x then x :: records (key x) xs else records w xs

def high (w : κ) : List α → κ
  | [] => w
  | x :: xs => high (max w (key x)) xs

namespace records

variable {key}

theorem sublist (w : κ) (l : List α) : (records key w l).Sublist l := by
  induction l generalizing w with
  | nil => exact List.Sublist.refl []
  | cons x xs ih =>
    unfold records
    split
    · exact (ih (key x)).cons_cons x
    · exact (ih w).cons x

theorem le_of_mem {w : κ} {l : List α} {x : α} (hx : x ∈ records key w l) : w ≤ key x := by
  induction l generalizing w with
  | nil => exact absurd hx List.not_mem_nil
  | cons y ys ih =>
    unfold records at hx
    split at hx
    · next hy =>
      rcases List.mem_cons.mp hx with rfl | hx
      · exact hy
      · exact hy.trans (ih hx)
    · exact ih hx

theorem sorted (w : κ) (l : List α) : (records key w l).Pairwise fun x y => key x ≤ key y := by
  induction l generalizing w with
  | nil => exact List.Pairwise.nil
  | cons x xs ih =>
    unfold records
    split
    · exact List.pairwise_cons.mpr ⟨fun y hy => le_of_mem hy, ih (key x)⟩
    · exact ih w

theorem mem_iff {w : κ} {pre post : List α} {x : α} (hx : x ∉ pre) (hx' : x ∉ post) :
    x ∈ records key w (pre ++ x :: post) ↔ w ≤ key x ∧ ∀ y ∈ pre, key y ≤ key x := by
  induction pre generalizing w with
  | nil =>
    rw [List.nil_append, records]
    split
    · next h => simp [h]
    · next h =>
      refine iff_of_false (fun hm => ?_) fun hm => h hm.1
      exact hx' ((sublist w post).subset hm)
  | cons y ys ih =>
    obtain ⟨hxy, hxs⟩ := not_or.mp (mt List.mem_cons.mpr hx)
    rw [List.cons_append, records, List.forall_mem_cons]
    split
    · next h =>
      rw [List.mem_cons, or_iff_right hxy, ih hxs]
      exact ⟨fun hm => ⟨h.trans hm.1, hm⟩, fun hm => hm.2⟩
    · next h =>
      rw [ih hxs]
      exact ⟨fun hm => ⟨hm.1, (not_le.mp h).le.trans hm.1, hm.2⟩, fun hm => ⟨hm.1, hm.2.2⟩⟩

end records

namespace high

variable {key}

theorem cons_of_le {w : κ} {x : α} (h : w ≤ key x) (xs : List α) :
    high key w (x :: xs) = high key (key x) xs :=
  congrArg (high key · xs) (max_eq_right h)

theorem cons_of_ge {w : κ} {x : α} (h : key x ≤ w) (xs : List α) :
    high key w (x :: xs) = high key w xs :=
  congrArg (high key · xs) (max_eq_left h)

theorem le (w : κ) (l : List α) : w ≤ high key w l := by
  induction l generalizing w with
  | nil => exact le_rfl
  | cons x xs ih => exact (le_max_left w (key x)).trans (ih _)

theorem le_of_mem {w : κ} {l : List α} {x : α} (hx : x ∈ l) : key x ≤ high key w l := by
  induction l generalizing w with
  | nil => exact absurd hx List.not_mem_nil
  | cons y ys ih =>
    rcases List.mem_cons.mp hx with rfl | hx
    · exact (le_max_right w (key x)).trans (le _ ys)
    · exact ih hx

end high
