import Mathlib.Data.List.Induction
import Mathlib.Data.List.Basic

/-!
# A cache of one entry

A cache keeps one value with its key, and takes another entry only when it is asked for another key.

* `Memo.ask` : a request, which carries the value that would be made for it;
* `Memo.LastBlock` : the request with which the last requests for one key begin;
* `Memo.lastBlock_iff` : this is what the cache holds.
-/

namespace Memo

variable {κ ν : Type*} [DecidableEq κ]

/-- A request for a key, with the value that the cache takes in if it holds another key. -/
def ask (m r : κ × ν) : κ × ν := if m.1 ≠ r.1 then r else m

theorem key_ask (m r : κ × ν) : (ask m r).1 = r.1 := by
  unfold ask
  split
  · rfl
  · next h => exact not_not.mp h

omit [DecidableEq κ] in
/-- The last requests of the list are for the key of `r`, which is the first of them. -/
def LastBlock (rs : List (κ × ν)) (r : κ × ν) : Prop :=
  ∃ before block, rs = before ++ r :: block ∧ (∀ q ∈ block, q.1 = r.1) ∧
    ∀ q ∈ before.getLast?, q.1 ≠ r.1

/-- What the cache holds is the first of the last requests for its key. -/
theorem lastBlock_foldl (m : κ × ν) (rs : List (κ × ν)) : LastBlock (m :: rs) (rs.foldl ask m) := by
  induction rs using List.reverseRecOn with
  | nil => exact ⟨[], [], rfl, nofun, nofun⟩
  | append_singleton rs r ih =>
    obtain ⟨before, block, hsplit, hblock, hbefore⟩ := ih
    rw [List.foldl_append, List.foldl_cons, List.foldl_nil, ← List.cons_append, hsplit]
    set held := rs.foldl ask m with hheld
    by_cases hkey : held.1 = r.1
    · rw [ask, if_neg (not_not.mpr hkey)]
      refine ⟨before, block ++ [r], by simp, fun q hq => ?_, hbefore⟩
      rcases List.mem_append.mp hq with hq | hq
      · exact hblock q hq
      · rw [List.mem_singleton.mp hq, hkey]
    · rw [ask, if_pos hkey]
      refine ⟨before ++ held :: block, [], rfl, nofun, fun q hq => ?_⟩
      have hlast : q ∈ held :: block := by
        rw [List.getLast?_append_of_ne_nil _ (List.cons_ne_nil _ _)] at hq
        exact List.mem_of_getLast? hq
      rcases List.mem_cons.mp hlast with rfl | hq
      · exact hkey
      · rw [hblock q hq]
        exact hkey

omit [DecidableEq κ] in
/-- There is one such request at most. -/
theorem LastBlock.unique {rs : List (κ × ν)} {r q : κ × ν} (hr : LastBlock rs r)
    (hq : LastBlock rs q) : r = q := by
  obtain ⟨before, block, rfl, hblock, hbefore⟩ := hr
  obtain ⟨before', block', heq, hblock', hbefore'⟩ := hq
  -- the longer block would have the last request before the shorter one in it
  have hshort : ∀ {b b' c c' : List (κ × ν)} {x y : κ × ν}, b ++ x :: c = b' ++ y :: c' →
      (∀ z ∈ c, z.1 = x.1) → (∀ z ∈ b'.getLast?, z.1 ≠ y.1) → ¬ b.length < b'.length := by
    intro b b' c c' x y h hc hlast hlt
    obtain ⟨mid, rfl, hmid⟩ | ⟨mid, rfl, hmid⟩ := List.append_eq_append_iff.mp h
    · cases mid with
      | nil => simp at hlt
      | cons z mid =>
        obtain ⟨rfl, rfl⟩ := List.cons.inj hmid
        have hy : y.1 = x.1 := hc y (by simp)
        have hmem : (x :: mid).getLast (List.cons_ne_nil x mid) ∈ x :: mid := List.getLast_mem _
        refine hlast ((x :: mid).getLast (List.cons_ne_nil x mid)) ?_ ?_
        · rw [List.getLast?_append_of_ne_nil _ (List.cons_ne_nil _ _)]
          exact List.getLast?_eq_some_getLast _
        · rcases List.mem_cons.mp hmem with hx | hz
          · rw [hx, hy]
          · rw [hc _ (List.mem_append_left _ hz), hy]
    · rw [List.length_append] at hlt
      omega
  have hlen : before.length = before'.length :=
    Nat.le_antisymm (Nat.not_lt.mp (hshort heq.symm hblock' hbefore))
      (Nat.not_lt.mp (hshort heq hblock hbefore'))
  obtain ⟨-, htail⟩ := List.append_inj heq hlen
  exact (List.cons.inj htail).1

/-- **The cache holds the first of the last requests for its key, and that request only.** -/
theorem lastBlock_iff {m r : κ × ν} {rs : List (κ × ν)} :
    LastBlock (m :: rs) r ↔ r = rs.foldl ask m := by
  constructor
  · intro h
    exact h.unique (lastBlock_foldl m rs)
  · rintro rfl
    exact lastBlock_foldl m rs

omit [DecidableEq κ] in
/-- The same for a cache that is filled with what is made of the requests. -/
theorem LastBlock.of_map {ν' : Type*} {f : ν → ν'} {m r : κ × ν'} {rs : List (κ × ν)}
    (h : LastBlock (m :: rs.map fun q => (q.1, f q.2)) r) (hm : r.1 ≠ m.1) :
    ∃ v, LastBlock rs (r.1, v) ∧ f v = r.2 := by
  obtain ⟨before, block, hsplit, hblock, hbefore⟩ := h
  cases before with
  | nil => exact absurd (congrArg Prod.fst (List.cons.inj hsplit).1.symm) hm
  | cons m' before =>
    obtain ⟨-, htail⟩ := List.cons.inj hsplit
    obtain ⟨before', rest, rfl, rfl, hrest⟩ := List.map_eq_append_iff.mp htail
    obtain ⟨⟨k, v⟩, block', rfl, rfl, rfl⟩ := List.map_eq_cons_iff.mp hrest
    refine ⟨v, ⟨before', block', rfl, ?_, ?_⟩, rfl⟩
    · exact fun q hq => hblock (q.1, f q.2) (List.mem_map_of_mem (f := fun q => (q.1, f q.2)) hq)
    · intro q hq
      refine hbefore (q.1, f q.2) ?_
      rw [List.getLast?_cons, List.getLast?_map, hq]
      rfl

end Memo
