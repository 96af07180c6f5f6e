import Mathlib.Logic.Relation

/-!
# Loops that may go on for ever

A loop is given by its round `next : σ → Except ε (Option σ)`: from a state the round ends the loop
(`none`), leads to the next state, or throws.

* `Ends next s r` : the loop from `s` comes to an end, with its last state or with an exception;
* `Visits next s t` : the loop from `s` comes by `t`;
* `Ends.unique` : a loop ends in one way;
* `not_ends` : where each round leads on, the loop never ends;
* `round`, `Pulls` : a loop that takes one item after the other from a source;
* `ends_round_iff`, `ends_round_ok_iff` : if the source runs dry, the loop is a fold over its items;
* `foldlM_eq_ok_iff` : a fold whose work throws at some items.
-/

namespace Loop

variable {ε σ ι κ α : Type*} {next : σ → Except ε (Option σ)}

/-- The loop from `s` comes to an end. -/
inductive Ends (next : σ → Except ε (Option σ)) : σ → Except ε σ → Prop
  | stop {s : σ} (h : next s = .ok none) : Ends next s (.ok s)
  | throw {s : σ} {e : ε} (h : next s = .error e) : Ends next s (.error e)
  | pass {s s' : σ} {r : Except ε σ} (h : next s = .ok (some s')) (hrest : Ends next s' r) :
      Ends next s r

/-- The loop from `s` comes by the state `t`. -/
def Visits (next : σ → Except ε (Option σ)) : σ → σ → Prop :=
  Relation.ReflTransGen fun s s' => next s = .ok (some s')

theorem ends_iff_of_pass {s s' : σ} {r : Except ε σ} (h : next s = .ok (some s')) :
    Ends next s r ↔ Ends next s' r := by
  constructor
  · intro hr
    cases hr with
    | stop h' => exact absurd (h.symm.trans h') (by simp)
    | throw h' => exact absurd (h.symm.trans h') (by simp)
    | pass h' hrest =>
      obtain rfl : s' = _ := by simpa using h.symm.trans h'
      exact hrest
  · exact Ends.pass h

theorem Ends.unique {s : σ} {r r' : Except ε σ} (h : Ends next s r) (h' : Ends next s r') :
    r = r' := by
  induction h with
  | stop h =>
    cases h' with
    | stop => rfl
    | throw h' => exact absurd (h.symm.trans h') (by simp)
    | pass h' => exact absurd (h.symm.trans h') (by simp)
  | throw h =>
    cases h' with
    | stop h' => exact absurd (h.symm.trans h') (by simp)
    | throw h' => simpa using h.symm.trans h'
    | pass h' => exact absurd (h.symm.trans h') (by simp)
  | pass h _ ih => exact ih ((ends_iff_of_pass h).mp h')

theorem not_ends {I : σ → Prop} (hI : ∀ s, I s → ∃ s', next s = .ok (some s') ∧ I s') {s : σ}
    (hs : I s) (r : Except ε σ) : ¬ Ends next s r := by
  intro h
  induction h with
  | stop h =>
    obtain ⟨s', hs', -⟩ := hI _ hs
    exact absurd (h.symm.trans hs') (by simp)
  | throw h =>
    obtain ⟨s', hs', -⟩ := hI _ hs
    exact absurd (h.symm.trans hs') (by simp)
  | pass h _ ih =>
    obtain ⟨s', hs', hnext⟩ := hI _ hs
    obtain rfl : s' = _ := by simpa using hs'.symm.trans h
    exact ih hnext

theorem Visits.keeps {I : σ → Prop} (hstep : ∀ s s', I s → next s = .ok (some s') → I s') {s t : σ}
    (h : Visits next s t) (hs : I s) : I t := by
  induction h with
  | refl => exact hs
  | tail _ hnext ih => exact hstep _ _ ih hnext

/-! ## Loops over a source -/

/-- The round that takes the next item of a source and works on it. -/
def round (pull : ι → Except ε (Option (κ × ι))) (f : α → κ → Except ε α) (s : ι × α) :
    Except ε (Option (ι × α)) :=
  match pull s.1 with
  | .error e => .error e
  | .ok none => .ok none
  | .ok (some (x, i)) => (f s.2 x).map fun a => some (i, a)

/-- From `i` the source gives the items `xs` and runs dry at `j`. -/
inductive Pulls (pull : ι → Except ε (Option (κ × ι))) : ι → List κ → ι → Prop
  | nil {i : ι} (h : pull i = .ok none) : Pulls pull i [] i
  | cons {i i' j : ι} {x : κ} {xs : List κ} (h : pull i = .ok (some (x, i')))
      (hrest : Pulls pull i' xs j) : Pulls pull i (x :: xs) j

variable {pull : ι → Except ε (Option (κ × ι))} {f : α → κ → Except ε α}

theorem round_of_pull {i i' : ι} {x : κ} {a a' : α} (h : pull i = .ok (some (x, i')))
    (hf : f a x = .ok a') : round pull f (i, a) = .ok (some (i', a')) := by
  simp only [round, h, hf]
  rfl

theorem round_of_dry {i : ι} (h : pull i = .ok none) (a : α) : round pull f (i, a) = .ok none := by
  simp only [round, h]

/-- Over a source that runs dry the loop ends, as the fold over the items does. -/
theorem ends_round {i j : ι} {xs : List κ} (h : Pulls pull i xs j) (f : α → κ → Except ε α) (a : α) :
    Ends (round pull f) (i, a) ((xs.foldlM f a).map fun b => (j, b)) := by
  induction h generalizing a with
  | nil h => exact .stop (round_of_dry h a)
  | @cons i i' j x xs h _ ih =>
    rw [List.foldlM_cons]
    cases hf : f a x with
    | error e =>
      refine .throw ?_
      simp only [round, h, hf]
      rfl
    | ok a' => exact .pass (round_of_pull h hf) (ih a')

theorem ends_round_iff {i j : ι} {xs : List κ} (h : Pulls pull i xs j) {a : α}
    {r : Except ε (ι × α)} :
    Ends (round pull f) (i, a) r ↔ r = (xs.foldlM f a).map fun b => (j, b) :=
  ⟨fun hr => hr.unique (ends_round h f a), fun hr => hr ▸ ends_round h f a⟩

/-- Work that never throws. -/
theorem ends_round_ok_iff {i j : ι} {xs : List κ} (h : Pulls pull i xs j) {g : α → κ → α} {a : α}
    {r : Except ε (ι × α)} :
    Ends (round pull fun a x => .ok (g a x)) (i, a) r ↔ r = .ok (j, xs.foldl g a) := by
  have hfold : xs.foldlM (fun a x => .ok (g a x)) a = (.ok (xs.foldl g a) : Except ε α) :=
    List.foldlM_pure
  rw [ends_round_iff h, hfold]
  rfl

/-- Work that throws at some items and not at the others, whatever it has made so far. -/
theorem foldlM_eq_ok_iff {g : α → κ → α} {bad : κ → Prop} {xs : List κ} {a b : α}
    (hok : ∀ a, ∀ x ∈ xs, ¬ bad x → f a x = .ok (g a x))
    (hbad : ∀ a, ∀ x ∈ xs, bad x → ∃ e, f a x = .error e) :
    xs.foldlM f a = .ok b ↔ (∀ x ∈ xs, ¬ bad x) ∧ xs.foldl g a = b := by
  induction xs generalizing a with
  | nil => exact ⟨fun h => ⟨nofun, Except.ok.inj h⟩, fun h => congrArg _ h.2⟩
  | cons x xs ih =>
    rw [List.foldlM_cons, List.foldl_cons, List.forall_mem_cons]
    by_cases hx : bad x
    · obtain ⟨e, he⟩ := hbad a x List.mem_cons_self hx
      rw [he]
      exact iff_of_false nofun fun h => h.1.1 hx
    · rw [hok a x List.mem_cons_self hx]
      refine (ih (fun a y hy => hok a y (List.mem_cons_of_mem x hy))
        fun a y hy => hbad a y (List.mem_cons_of_mem x hy)).trans ?_
      rw [and_assoc]
      exact (and_iff_right hx).symm

end Loop
