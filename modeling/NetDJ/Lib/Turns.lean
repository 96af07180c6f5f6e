import Mathlib.Data.List.Sort
import Mathlib.Logic.Relation
import NetDJ.Lib.Feed

/-!
# The turns of what waits in a feed

What a feed takes in is put in its place, and that may move what waits already. But nothing that is
new comes before it, and items with different keys keep their order.

* `Feed.Since`, `Feed.Since.step`, `Feed.exists_since` : what has been handed out and what has been
  taken in since a state;
* `Feed.Since.keys_eq`, `Feed.Since.mem_of_mem_take` : what waited in that state comes first, in the
  order of the keys;
* `Feed.Since.take_eq` : with different keys it comes as it stood.
-/

namespace Feed

variable {α κ ω ι : Type*}

section Moves
variable [Preorder κ] {M : Marking κ ω} {key : α → κ} {ident : α → ι}

/-- Since the state `s` the items `later` have been handed out and the items `new` taken in, which
are above all that waited in `s`. -/
structure Since (key : α → κ) (s t : Feed α ω) (later new : List α) : Prop where
  taken : t.taken = s.taken ++ later
  perm : (later ++ t.queue).Perm (s.queue ++ new)
  above : ∀ x ∈ s.queue, ∀ y ∈ new, key x < key y

theorem Since.mem_all {s t : Feed α ω} {later new : List α} (h : Since key s t later new) {x : α}
    (hx : x ∈ s.queue) : x ∈ t.all := by
  unfold all
  rw [h.taken, List.append_assoc]
  exact List.mem_append_right _ (h.perm.mem_iff.mpr (List.mem_append_left _ hx))

theorem Since.step {s t u : Feed α ω} {later new : List α} (h : Since key s t later new)
    (ht : Ordered M key ident t) (hstep : Step M key ident t u) :
    ∃ later' new', Since key s u later' new' := by
  cases hstep with
  | absorb batch queue w hnew old cover once perm sorted =>
    refine ⟨later, new ++ batch, h.taken, ?_, fun x hx y hy => ?_⟩
    · calc (later ++ queue).Perm (later ++ (t.queue ++ batch)) := perm.append_left later
        _ = (later ++ t.queue) ++ batch := (List.append_assoc _ _ _).symm
        _ |>.Perm ((s.queue ++ new) ++ batch) := h.perm.append_right batch
        _ = s.queue ++ (new ++ batch) := List.append_assoc _ _ _
    · rcases List.mem_append.mp hy with hy | hy
      · exact h.above x hx y hy
      · exact ht.lt_of_new (h.mem_all hx) (hnew y hy)
  | take x queue front =>
    refine ⟨later ++ [x], new, ?_, ?_, h.above⟩
    · rw [h.taken, List.append_assoc]
    · rw [List.append_assoc, List.singleton_append, ← front]
      exact h.perm

/-- Whatever the moves are, there is such a pair of lists. -/
theorem exists_since {s t : Feed α ω} (hs : Ordered M key ident s)
    (h : Relation.ReflTransGen (Step M key ident) s t) :
    Ordered M key ident t ∧ ∃ later new, Since key s t later new := by
  induction h with
  | refl =>
    exact ⟨hs, [], [], (List.append_nil _).symm, List.Perm.of_eq (List.append_nil _).symm,
      fun _ _ _ hy => absurd hy List.not_mem_nil⟩
  | tail _ hstep ih =>
    obtain ⟨hordered, later, new, hsince⟩ := ih
    exact ⟨hstep.ordered hordered, hsince.step hordered hstep⟩

end Moves

section Order
variable [LinearOrder κ] {M : Marking κ ω} {key : α → κ} {ident : α → ι}
variable {s t : Feed α ω} {later new : List α}

theorem Since.map_key (h : Since key s t later new) (hs : Ordered M key ident s)
    (ht : Ordered M key ident t) : (later ++ t.queue).map key =
      s.queue.map key ++ (new.map key).insertionSort (· ≤ ·) := by
  have hsorted : (later ++ t.queue).Pairwise fun x y => key x ≤ key y := by
    have hall := ht.sorted
    unfold all at hall
    rw [h.taken, List.append_assoc] at hall
    exact (List.pairwise_append.mp hall).2.1
  refine List.Perm.eq_of_pairwise (fun a b _ _ => le_antisymm) (List.pairwise_map.mpr hsorted) ?_ ?_
  · refine List.pairwise_append.mpr ⟨List.pairwise_map.mpr hs.queue_sorted,
      List.pairwise_insertionSort _ _, fun a ha b hb => ?_⟩
    obtain ⟨x, hx, rfl⟩ := List.mem_map.mp ha
    obtain ⟨y, hy, rfl⟩ := List.mem_map.mp ((List.mem_insertionSort _).mp hb)
    exact (h.above x hx y hy).le
  · refine (h.perm.map key).trans ?_
    rw [List.map_append]
    exact (List.perm_insertionSort _ _).symm.append_left _

/-- As far as the queue of `s` goes, the keys are those that it had. -/
theorem Since.keys_eq (h : Since key s t later new) (hs : Ordered M key ident s)
    (ht : Ordered M key ident t) {n : Nat} (hn : n ≤ s.queue.length) :
    (later.take n).map key = ((s.queue.take n).take later.length).map key := by
  have hlater : ((later ++ t.queue).take n).take later.length = later.take n := by
    rw [List.take_take, Nat.min_comm, ← List.take_take, List.take_left]
  calc (later.take n).map key
      = (((later ++ t.queue).map key).take n).take later.length := by
        rw [← hlater, List.map_take, List.map_take]
    _ = ((s.queue.map key ++ (new.map key).insertionSort (· ≤ ·)).take n).take later.length := by
        rw [h.map_key hs ht]
    _ = ((s.queue.map key).take n).take later.length := by
        rw [List.take_append_of_le_length (by simpa using hn)]
    _ = ((s.queue.take n).take later.length).map key := by
        rw [List.map_take, List.map_take]

/-- And the items are items of that queue. -/
theorem Since.mem_of_mem_take (h : Since key s t later new) (hs : Ordered M key ident s)
    (ht : Ordered M key ident t) {x : α} (hx : x ∈ later.take s.queue.length) : x ∈ s.queue := by
  have hkey : key x ∈ ((s.queue.take s.queue.length).take later.length).map key := by
    rw [← h.keys_eq hs ht le_rfl]
    exact List.mem_map_of_mem hx
  obtain ⟨g, hg, hgx⟩ := List.mem_map.mp hkey
  have hg : g ∈ s.queue := List.mem_of_mem_take (List.mem_of_mem_take hg)
  have hall : x ∈ s.queue ++ new :=
    h.perm.mem_iff.mp (List.mem_append_left _ (List.mem_of_mem_take hx))
  rcases List.mem_append.mp hall with hold | hnew
  · exact hold
  · exact absurd (h.above g hg x hnew) (hgx ▸ lt_irrefl _)

/-- Items whose keys differ come as they stood. -/
theorem Since.take_eq (h : Since key s t later new) (hs : Ordered M key ident s)
    (ht : Ordered M key ident t) {n : Nat} (hn : n ≤ s.queue.length)
    (hkeys : (s.queue.map key).Nodup) : later.take n = (s.queue.take n).take later.length := by
  have hmap := h.keys_eq hs ht hn
  have hlen : (later.take n).length = ((s.queue.take n).take later.length).length := by
    simpa using congrArg List.length hmap
  refine List.ext_getElem hlen fun i hi hi' => ?_
  refine List.inj_on_of_nodup_map hkeys ?_ ?_ ?_
  · refine h.mem_of_mem_take hs ht (List.take_subset_take_left _ hn (List.getElem_mem hi))
  · exact List.mem_of_mem_take (List.mem_of_mem_take (List.getElem_mem hi'))
  · have hget := List.getElem_of_eq hmap (by simpa using hi)
    simpa using hget

end Order

end Feed
