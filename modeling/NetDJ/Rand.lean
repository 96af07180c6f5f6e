import NetDJ.Lib.Rounding
import NetDJ.Daemon.Directory
import NetDJ.Engine.Songlist

/-!
# `util.cc`, `util.cpp`: a random place in a list

* `getRand` : `get_rand`, the same in both players;
* `getRand_lt_iff` : the place lies in the list unless `rand()` is rounded up to `RAND_MAX + 1`;
* `picks_iff` : and then both players find a song there.
-/

namespace NetDJ

open Rounding

def RAND_MAX : Nat := 2 ^ 31 - 1

/-- A `float` has 24 significant bits. -/
def toFloat (m : Nat) : Nat := round 24 m

/-- `(int) ((float) max * rand() / (RAND_MAX + 1.0))`, where `rand()` is `r`. -/
def getRand (max r : Nat) : Nat := toFloat (toFloat max * toFloat r) / (RAND_MAX + 1)

/-- The numbers of `rand()` that stay below `RAND_MAX + 1` as a `float`. -/
theorem toFloat_cases (r : Nat) :
    r < 2 ^ 31 - 64 ∧ toFloat r ≤ (2 ^ 24 - 1) * 2 ^ 7 ∨ 2 ^ 31 - 64 ≤ r ∧ 2 ^ 31 ≤ toFloat r := by
  rcases Nat.lt_or_ge r (2 ^ 31 - 64) with hr | hr
  · refine .inl ⟨hr, ?_⟩
    calc toFloat r ≤ round 24 (2 ^ 31 - 65) := round_mono (by decide) (by omega)
      _ = (2 ^ 24 - 1) * 2 ^ 7 := by decide +kernel
  · refine .inr ⟨hr, ?_⟩
    calc 2 ^ 31 = round 24 (2 ^ 31 - 64) := by decide +kernel
      _ ≤ toFloat r := round_mono (by decide) hr

theorem getRand_lt_iff {n r : Nat} (hn : 0 < n) (hsize : n < 2 ^ 24) :
    getRand n r < n ↔ r < 2 ^ 31 - 64 := by
  have hmax : toFloat n = n := round_of_lt hsize
  have hrange : RAND_MAX + 1 = 2 ^ 31 := by decide
  rw [getRand, hmax, hrange, Nat.div_lt_iff_lt_mul (by decide)]
  rcases toFloat_cases r with ⟨hr, hfloat⟩ | ⟨hr, hfloat⟩
  · refine iff_of_true ?_ hr
    calc toFloat (n * toFloat r) ≤ round 24 (n * ((2 ^ 24 - 1) * 2 ^ 7)) :=
          round_mono (by decide) (Nat.mul_le_mul_left n hfloat)
      _ < n * 2 ^ 31 := round_mul_lt 24 7 hn
  · refine iff_of_false (Nat.not_lt.mpr ?_) (Nat.not_lt.mpr hr)
    calc n * 2 ^ 31 = round 24 (n * 2 ^ 31) := (round_mul_two_pow hsize 31).symm
      _ ≤ toFloat (n * toFloat r) := round_mono (by decide) (Nat.mul_le_mul_left n hfloat)

/-! ## The players -/

/-- `Directory::GetSong` after an `Update` of a list that is no playlist. -/
theorem Daemon.Directory.getSong_random {d d' : Daemon.Directory} {os : Daemon.Os}
    (hd : d.update os = .ok d') (hplaylist : d'.playlist = false) (hlist : d'.list ≠ [])
    (rand : Nat) : (∃ r, d.getSong os rand = .ok r) ↔ rand < d'.list.length := by
  simp only [Daemon.Directory.getSong, hd]
  split
  · next hnil => exact absurd hnil hlist
  · rw [if_neg (by simp [hplaylist])]
    split
    · next hsome => exact iff_of_true ⟨_, rfl⟩ (List.getElem?_eq_some_iff.mp hsome).1
    · next hnone =>
      rw [List.getElem?_eq_none_iff] at hnone
      exact iff_of_false (by simp) (Nat.not_lt.mpr hnone)

/-- `Collection_Songlist::GetNextSong` of a list that is no queue. -/
theorem Engine.CollectionSonglist.getNextSong_in_range {c : Engine.CollectionSonglist}
    (hq : c.mIsQueue = false) (hlist : c.mSonglist ≠ []) (rand : Nat) :
    (∃ sng, (c.getNextSong rand).2 = .ok sng) ↔ rand < c.mSonglist.length := by
  unfold Engine.CollectionSonglist.getNextSong
  split
  · next hnil => exact absurd hnil hlist
  · rw [if_neg (by simp [hq])]
    split
    · next hsome => exact iff_of_true ⟨_, rfl⟩ (List.getElem?_eq_some_iff.mp hsome).1
    · next hnone =>
      rw [List.getElem?_eq_none_iff] at hnone
      exact iff_of_false (by simp) (Nat.not_lt.mpr hnone)

/-- **A random pick lies in the list**, and is found there by both players, exactly if `rand()` is
less than `2 ^ 31 - 64`. -/
theorem picks_iff {n : Nat} (hn : 1 ≤ n) (hsize : n < 2 ^ 24) (r : Nat) :
    (getRand n r < n ∧
      (∀ d os d', Daemon.Directory.update d os = .ok d' → d'.playlist = false →
        d'.list.length = n → ∃ res, d.getSong os (getRand d'.list.length r) = .ok res) ∧
      ∀ c : Engine.CollectionSonglist, c.mIsQueue = false → c.mSonglist.length = n →
        ∃ sng, (c.getNextSong (getRand c.mSonglist.length r)).2 = .ok sng) ↔ r < 2 ^ 31 - 64 := by
  rw [← getRand_lt_iff hn hsize]
  refine ⟨And.left, fun h => ⟨h, fun d os d' hd hplaylist hlen => ?_, fun c hq hlen => ?_⟩⟩
  · have hlist : d'.list ≠ [] := List.ne_nil_of_length_pos (by omega)
    rw [Daemon.Directory.getSong_random hd hplaylist hlist, hlen]
    exact h
  · have hlist : c.mSonglist ≠ [] := List.ne_nil_of_length_pos (by omega)
    rw [Engine.CollectionSonglist.getNextSong_in_range hq hlist, hlen]
    exact h

/-- The only song of a list, and the last number that does not round up. -/
theorem picks_one : getRand 1 (2 ^ 31 - 65) < 1 ∧ 2 ^ 31 - 65 ≤ RAND_MAX :=
  ⟨((picks_iff (Nat.le_refl 1) (by decide) (2 ^ 31 - 65)).mpr (by decide)).1, by decide⟩

/-- The greatest number of `rand()` gives a place behind the end. -/
theorem pick_outside : ¬ ∀ n r, 1 ≤ n → n < 2 ^ 24 → r ≤ RAND_MAX → getRand n r < n := by
  intro h
  exact absurd (h 1 RAND_MAX (by decide) (by decide) le_rfl) (by decide +kernel)

end NetDJ
