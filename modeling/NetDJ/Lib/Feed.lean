import Mathlib.Order.Lattice
import Mathlib.Data.List.Nodup
import Mathlib.Data.List.Pairwise

/-!
# Feeds: a queue filled in batches above a moving mark

A feed takes items in batches, hands them out from the front, and remembers of the past only a
mark. An item enters when the mark does not cover its key; the new mark covers every key that has
entered. Then no key enters below one that has been handed out, whatever the batches are.

* `Marking` : which keys a mark covers (`Marking.upTo`, `Marking.below`);
* `Feed`, `Feed.Step` : the states of a feed and its two moves;
* `Feed.Ordered` : handed out and waiting items together are sorted, covered and without repeats;
* `Feed.Step.ordered` : every move keeps this;
* `Feed.Ordered.append_sorted` : a sorted batch of new items can be put behind the queue.
-/

variable {α κ ω ι : Type*}

/-- Which keys a mark covers: every key it leaves uncovered is above every key it covers. -/
structure Marking (κ ω : Type*) [Preorder κ] where
  covers : ω → κ → Prop
  lt_of_covers : ∀ {w a b}, covers w a → ¬ covers w b → a < b

namespace Marking

/-- The mark `w` covers the keys up to `w`. -/
def upTo (κ : Type*) [LinearOrder κ] : Marking κ κ where
  covers w a := a ≤ w
  lt_of_covers ha hb := lt_of_le_of_lt ha (not_le.mp hb)

/-- The mark `w` covers the keys strictly below `w`. -/
def below (κ : Type*) [LinearOrder κ] : Marking κ κ where
  covers w a := a < w
  lt_of_covers ha hb := lt_of_lt_of_le ha (not_lt.mp hb)

end Marking

/-- The mark, the items waiting and the items handed out so far. -/
structure Feed (α ω : Type*) where
  mark : ω
  queue : List α
  taken : List α

namespace Feed

/-- All items that ever entered: those handed out, then those waiting. -/
def all (s : Feed α ω) : List α := s.taken ++ s.queue

section Moves
variable [Preorder κ] (M : Marking κ ω) (key : α → κ) (ident : α → ι)

/-- A feed takes in a batch, or hands out its front item. -/
inductive Step : Feed α ω → Feed α ω → Prop
  | absorb (s : Feed α ω) (batch queue : List α) (w : ω)
      (new : ∀ x ∈ batch, ¬ M.covers s.mark (key x))
      (old : ∀ x ∈ s.all, M.covers w (key x))
      (cover : ∀ x ∈ batch, M.covers w (key x))
      (once : (batch.map fun x => (ident x, key x)).Nodup)
      (perm : queue.Perm (s.queue ++ batch))
      (sorted : queue.Pairwise fun x y => key x ≤ key y) :
      Step s ⟨w, queue, s.taken⟩
  | take (s : Feed α ω) (x : α) (queue : List α) (front : s.queue = x :: queue) :
      Step s ⟨s.mark, queue, s.taken ++ [x]⟩

/-- Items come in the order of their keys, the mark covers them, and none comes twice. -/
structure Ordered (s : Feed α ω) : Prop where
  sorted : s.all.Pairwise fun x y => key x ≤ key y
  covered : ∀ x ∈ s.all, M.covers s.mark (key x)
  once : (s.all.map fun x => (ident x, key x)).Nodup

theorem Ordered.start (w : ω) : Ordered M key ident ⟨w, [], []⟩ :=
  ⟨List.Pairwise.nil, fun _ h => absurd h List.not_mem_nil, List.nodup_nil⟩

end Moves

section Invariant
variable [Preorder κ] {M : Marking κ ω} {key : α → κ} {ident : α → ι}

theorem take_all {s : Feed α ω} {x : α} {queue : List α} (front : s.queue = x :: queue) :
    Feed.all ⟨s.mark, queue, s.taken ++ [x]⟩ = s.all := by
  simp [Feed.all, front]

theorem absorb_all_perm {s : Feed α ω} {batch queue : List α} {w : ω}
    (perm : queue.Perm (s.queue ++ batch)) :
    (Feed.all ⟨w, queue, s.taken⟩).Perm (s.all ++ batch) := by
  simpa only [Feed.all, List.append_assoc] using perm.append_left s.taken

theorem Ordered.lt_of_new {s : Feed α ω} (hs : Ordered M key ident s) {x y : α} (hx : x ∈ s.all)
    (hy : ¬ M.covers s.mark (key y)) : key x < key y :=
  M.lt_of_covers (hs.covered x hx) hy

/-- A sorted batch of new items can be put behind the queue. -/
theorem Ordered.append_sorted {s : Feed α ω} (hs : Ordered M key ident s) {batch : List α}
    (new : ∀ x ∈ batch, ¬ M.covers s.mark (key x))
    (sorted : batch.Pairwise fun x y => key x ≤ key y) :
    (s.queue ++ batch).Pairwise fun x y => key x ≤ key y := by
  refine List.pairwise_append.mpr ⟨(List.pairwise_append.mp hs.sorted).2.1, sorted, ?_⟩
  intro x hx y hy
  exact (hs.lt_of_new (List.mem_append_right _ hx) (new y hy)).le

theorem Step.ordered {s t : Feed α ω} (h : Step M key ident s t) (hs : Ordered M key ident s) :
    Ordered M key ident t := by
  cases h with
  | absorb batch queue w new old cover once perm sorted =>
    have hall := absorb_all_perm (w := w) perm
    refine ⟨?_, fun x hx => ?_, ?_⟩
    · refine List.pairwise_append.mpr ⟨(List.pairwise_append.mp hs.sorted).1, sorted, ?_⟩
      intro x hx y hy
      rcases List.mem_append.mp (perm.mem_iff.mp hy) with hy | hy
      · exact (List.pairwise_append.mp hs.sorted).2.2 x hx y hy
      · exact (hs.lt_of_new (List.mem_append_left _ hx) (new y hy)).le
    · rcases List.mem_append.mp (hall.mem_iff.mp hx) with hx | hx
      · exact old x hx
      · exact cover x hx
    · rw [(hall.map _).nodup_iff, List.map_append]
      refine List.nodup_append.mpr ⟨hs.once, once, ?_⟩
      intro a ha b hb hab
      obtain ⟨x, hx, rfl⟩ := List.mem_map.mp ha
      obtain ⟨y, hy, rfl⟩ := List.mem_map.mp hb
      exact (hs.lt_of_new hx (new y hy)).ne (Prod.ext_iff.mp hab).2
  | take x queue front =>
    have hall := take_all front
    exact ⟨hall ▸ hs.sorted, fun y hy => hs.covered y (hall ▸ hy), hall ▸ hs.once⟩

theorem Ordered.taken_le_queue {s : Feed α ω} (hs : Ordered M key ident s) {x y : α}
    (hx : x ∈ s.taken) (hy : y ∈ s.queue) : key x ≤ key y :=
  (List.pairwise_append.mp hs.sorted).2.2 x hx y hy

theorem Ordered.taken_sorted {s : Feed α ω} (hs : Ordered M key ident s) :
    s.taken.Pairwise fun x y => key x ≤ key y :=
  (List.pairwise_append.mp hs.sorted).1

theorem Ordered.queue_sorted {s : Feed α ω} (hs : Ordered M key ident s) :
    s.queue.Pairwise fun x y => key x ≤ key y :=
  (List.pairwise_append.mp hs.sorted).2.1

end Invariant

end Feed
