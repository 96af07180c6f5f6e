import Mathlib.Data.List.Basic

/-!
# A list with a current item

The list of a linked-list class that remembers a position: `append` makes the new item the current
one, `next` moves on from the current item, and behind the last item there is none.

* `CursorList.append`, `first`, `next`, `clear` : the calls;
* `At` : the current item, with what stands before and after it;
* `first_cons`, `At.next`, `At.next_last` : a pass over the list;
* `at_append` : an append ends the pass.
-/

/-- The items, and the index of the current one. -/
structure CursorList (α : Type*) where
  items : List α
  cur : Option Nat

namespace CursorList

variable {α : Type*}

def empty : CursorList α := ⟨[], none⟩

def append (l : CursorList α) (a : α) : CursorList α := ⟨l.items ++ [a], some l.items.length⟩

/-- The first item becomes the current one, if there is one. -/
def first (l : CursorList α) : CursorList α × Option α :=
  match l.items with
  | [] => (l, none)
  | a :: _ => ({ l with cur := some 0 }, some a)

/-- The item after the current one becomes the current one. -/
def next (l : CursorList α) : CursorList α × Option α :=
  match l.cur with
  | none => (l, none)
  | some i =>
    match l.items[i + 1]? with
    | some a => ({ l with cur := some (i + 1) }, some a)
    | none => ({ l with cur := none }, none)

def clear (_ : CursorList α) : CursorList α := ⟨[], none⟩

/-- The current item is `a`, behind `pre` and before `post`. -/
structure At (l : CursorList α) (pre : List α) (a : α) (post : List α) : Prop where
  items : l.items = pre ++ a :: post
  cur : l.cur = some pre.length

theorem first_nil {l : CursorList α} (h : l.items = []) : l.first = (l, none) := by
  rw [first, h]

theorem first_cons {l : CursorList α} {a : α} {post : List α} (h : l.items = a :: post) :
    ∃ l', l.first = (l', some a) ∧ l'.At [] a post := by
  rw [first, h]
  exact ⟨_, rfl, rfl, rfl⟩

theorem At.getElem? {l : CursorList α} {pre post : List α} {a : α} (h : l.At pre a post) :
    l.items[pre.length + 1]? = post.head? := by
  rw [h.items, List.getElem?_append_right (by omega), Nat.add_sub_cancel_left,
    List.getElem?_cons_succ, List.head?_eq_getElem?]

theorem At.next {l : CursorList α} {pre post : List α} {a b : α} (h : l.At pre a (b :: post)) :
    ∃ l', l.next = (l', some b) ∧ l'.At (pre ++ [a]) b post := by
  have hb : l.items[pre.length + 1]? = some b := h.getElem?
  refine ⟨⟨l.items, some (pre.length + 1)⟩, ?_, ?_, ?_⟩
  · rw [CursorList.next, h.cur]
    dsimp only
    rw [hb]
  · rw [h.items, List.append_assoc]
    rfl
  · rw [List.length_append]
    rfl

theorem At.next_last {l : CursorList α} {pre : List α} {a : α} (h : l.At pre a []) :
    l.next = (⟨l.items, none⟩, none) := by
  have hnone : l.items[pre.length + 1]? = none := h.getElem?
  rw [CursorList.next, h.cur]
  dsimp only
  rw [hnone]

theorem at_append (l : CursorList α) (a : α) : (l.append a).At l.items a [] := ⟨rfl, rfl⟩

end CursorList
