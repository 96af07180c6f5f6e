import Mathlib.Data.List.Induction
import Mathlib.Data.List.Basic

/-!
# Runs of a machine given by a partial step function

A machine is `step : σ → α → Option σ`: `step s a = none` where the action `a` is not possible in
the state `s`, and nothing follows an action that is not possible.

* `run step s as` : the state after the actions `as`;
* `run_append`, `run_snoc` : runs compose;
* `Takes` : the run takes an action in a state; `takes_snoc`, `takes_cons`, `Takes.append`,
  `Takes.prepend` : what a longer run takes;
* `Reaches` : the run comes by a state;
* `run_induction` : a property of the run so far that each step carries on;
* `forall_reaches_iff` : a property that holds along a run exactly if its steps meet a condition;
* `forall_takes_congr` : two properties of the steps of a run that an invariant makes the same;
* `run_invariant`, `takes_invariant`, `run_keeps` : a property of states that each step keeps,
  under a condition on the actions or under none;
* `takes_invariant_under`, `run_invariant_under` : the same under a condition on the steps.
-/

namespace Machine

variable {σ α : Type*} {step : σ → α → Option σ}

/-- The state after the actions `as` from `s`. -/
def run (step : σ → α → Option σ) : σ → List α → Option σ
  | s, [] => some s
  | s, a :: as => (step s a).bind fun s' => run step s' as

@[simp] theorem run_nil (s : σ) : run step s [] = some s := rfl

@[simp] theorem run_cons (s : σ) (a : α) (as : List α) :
    run step s (a :: as) = (step s a).bind fun s' => run step s' as := rfl

theorem run_append (s : σ) (as bs : List α) :
    run step s (as ++ bs) = (run step s as).bind fun s' => run step s' bs := by
  induction as generalizing s with
  | nil => rfl
  | cons a as ih =>
    rw [List.cons_append, run_cons, run_cons, Option.bind_assoc]
    exact congrArg _ (funext fun s' => ih s')

theorem run_snoc (s : σ) (as : List α) (a : α) :
    run step s (as ++ [a]) = (run step s as).bind fun s' => step s' a := by
  rw [run_append]
  congr 1
  funext s'
  cases h : step s' a <;> simp [h]

/-- The run of the actions `as` from `s` takes the action `a` in the state `t`. -/
def Takes (step : σ → α → Option σ) (s : σ) (as : List α) (t : σ) (a : α) : Prop :=
  ∃ before after, as = before ++ a :: after ∧ run step s before = some t

theorem not_takes_nil {s t : σ} {a : α} : ¬ Takes step s [] t a := by
  rintro ⟨before, after, h, -⟩
  exact absurd h (by simp)

theorem Takes.append {s t : σ} {as : List α} {a : α} (h : Takes step s as t a) (bs : List α) :
    Takes step s (as ++ bs) t a := by
  obtain ⟨before, after, rfl, ht⟩ := h
  exact ⟨before, after ++ bs, by simp, ht⟩

theorem Takes.prepend {s t u : σ} {as bs : List α} {a : α} (hs : run step s as = some t)
    (h : Takes step t bs u a) : Takes step s (as ++ bs) u a := by
  obtain ⟨before, after, rfl, hu⟩ := h
  refine ⟨as ++ before, after, (List.append_assoc as before _).symm, ?_⟩
  rw [run_append, hs]
  exact hu

theorem takes_snoc {s t : σ} {as : List α} {a b : α} :
    Takes step s (as ++ [b]) t a ↔ Takes step s as t a ∨ (run step s as = some t ∧ a = b) := by
  constructor
  · rintro ⟨before, after, h, ht⟩
    rcases List.eq_nil_or_concat after with rfl | ⟨after, c, rfl⟩
    · obtain ⟨rfl, hab⟩ := List.append_inj' h rfl
      exact .inr ⟨ht, (List.singleton_inj.mp hab).symm⟩
    · rw [List.concat_eq_append, ← List.cons_append, ← List.append_assoc] at h
      exact .inl ⟨before, after, (List.append_inj' h rfl).1, ht⟩
  · rintro (⟨before, after, rfl, ht⟩ | ⟨ht, rfl⟩)
    · exact ⟨before, after ++ [b], by simp, ht⟩
    · exact ⟨as, [], rfl, ht⟩

theorem takes_cons {s t : σ} {as : List α} {a b : α} :
    Takes step s (b :: as) t a ↔
      (t = s ∧ a = b) ∨ ∃ s', step s b = some s' ∧ Takes step s' as t a := by
  constructor
  · rintro ⟨before, after, h, ht⟩
    cases before with
    | nil =>
      cases h
      cases ht
      exact .inl ⟨rfl, rfl⟩
    | cons c before =>
      obtain ⟨rfl, rfl⟩ := List.cons.inj h
      obtain ⟨s', hs, hr⟩ := Option.bind_eq_some_iff.mp ht
      exact .inr ⟨s', hs, before, after, rfl, hr⟩
  · rintro (⟨rfl, rfl⟩ | ⟨s', hs, before, after, rfl, hr⟩)
    · exact ⟨[], as, rfl, rfl⟩
    · refine ⟨b :: before, after, rfl, ?_⟩
      rw [run_cons, hs]
      exact hr

theorem forall_takes_nil {s : σ} {P : σ → α → Prop} : ∀ t a, Takes step s [] t a → P t a :=
  fun _ _ h => absurd h not_takes_nil

/-- A property of all steps of a run, from its first step and the rest of the run. -/
theorem forall_takes_cons {s s' : σ} {a : α} {as : List α} {P : σ → α → Prop}
    (hs : step s a = some s') (ha : P s a) (has : ∀ t b, Takes step s' as t b → P t b) :
    ∀ t b, Takes step s (a :: as) t b → P t b := by
  intro t b h
  rcases takes_cons.mp h with ⟨rfl, rfl⟩ | ⟨s'', hs'', h⟩
  · exact ha
  · rw [hs] at hs''
    cases hs''
    exact has t b h

/-- The run of the actions `as` from `s` comes by the state `t`. -/
def Reaches (step : σ → α → Option σ) (s : σ) (as : List α) (t : σ) : Prop :=
  ∃ before after, as = before ++ after ∧ run step s before = some t

theorem reaches_nil {s t : σ} : Reaches step s [] t ↔ t = s := by
  constructor
  · rintro ⟨before, after, h, ht⟩
    obtain ⟨rfl, rfl⟩ := List.append_eq_nil_iff.mp h.symm
    cases ht
    rfl
  · rintro rfl
    exact ⟨[], [], rfl, rfl⟩

theorem reaches_snoc {s t : σ} {as : List α} {b : α} :
    Reaches step s (as ++ [b]) t ↔ Reaches step s as t ∨ run step s (as ++ [b]) = some t := by
  constructor
  · rintro ⟨before, after, h, ht⟩
    rcases List.eq_nil_or_concat after with rfl | ⟨after, c, rfl⟩
    · rw [List.append_nil] at h
      exact .inr (h ▸ ht)
    · rw [List.concat_eq_append, ← List.append_assoc] at h
      exact .inl ⟨before, after, (List.append_inj' h rfl).1, ht⟩
  · rintro (⟨before, after, rfl, ht⟩ | ht)
    · exact ⟨before, after ++ [b], List.append_assoc _ _ _, ht⟩
    · exact ⟨as ++ [b], [], (List.append_nil _).symm, ht⟩

/-- A property of the actions taken and of the state reached, carried on by each step of a run. -/
theorem run_induction {s₀ : σ} {P : List α → σ → Prop} (h₀ : P [] s₀)
    (hstep : ∀ as s a s', run step s₀ as = some s → P as s → step s a = some s' →
      P (as ++ [a]) s') : ∀ as s, run step s₀ as = some s → P as s := by
  intro as
  induction as using List.reverseRecOn with
  | nil =>
    intro s h
    cases h
    exact h₀
  | append_singleton as a ih =>
    intro s h
    rw [run_snoc] at h
    obtain ⟨t, ht, hs⟩ := Option.bind_eq_some_iff.mp h
    exact hstep as t a s ht (ih t ht) hs

/-- An invariant `I` that every step under `C` keeps and every other step breaks for good: the
property it stands for holds in all states of a run exactly if all its steps are under `C`. -/
theorem forall_reaches_iff {I P : σ → Prop} {C : σ → α → Prop} {s : σ} (h₀ : I s)
    (hP : ∀ t, I t → P t) (hkeep : ∀ t a t', I t → C t a → step t a = some t' → I t')
    (hbreak : ∀ t a t', I t → ¬ C t a → step t a = some t' → ¬ P t') {s' : σ} {as : List α}
    (h : run step s as = some s') :
    (∀ t, Reaches step s as t → P t) ↔ ∀ t a, Takes step s as t a → C t a := by
  refine (run_induction (P := fun as s' =>
    ((∀ t, Reaches step s as t → P t) ↔ ∀ t a, Takes step s as t a → C t a) ∧
      ((∀ t a, Takes step s as t a → C t a) → I s')) ?_ ?_ as s' h).1
  · refine ⟨iff_of_true (fun t ht => ?_) fun t a ht => absurd ht not_takes_nil, fun _ => h₀⟩
    rw [reaches_nil.mp ht]
    exact hP s h₀
  · rintro as t a t' ht ⟨ih, hI⟩ hstep
    have hsnoc : run step s (as ++ [a]) = some t' := by
      rw [run_snoc, ht]
      exact hstep
    have htakes : (∀ u b, Takes step s (as ++ [a]) u b → C u b) ↔
        (∀ u b, Takes step s as u b → C u b) ∧ C t a := by
      simp only [takes_snoc, ht, Option.some.injEq, or_imp, forall_and, and_imp]
      exact and_congr_right fun _ => ⟨fun h => h t a rfl rfl, by rintro h _ _ rfl rfl; exact h⟩
    have hreaches : (∀ u, Reaches step s (as ++ [a]) u → P u) ↔
        (∀ u, Reaches step s as u → P u) ∧ P t' := by
      simp only [reaches_snoc, hsnoc, Option.some.injEq, or_imp, forall_and, forall_eq']
    rw [htakes, hreaches, ih]
    refine ⟨and_congr_right fun hC => ⟨fun hp => ?_, fun hc => ?_⟩, fun hC => ?_⟩
    · by_contra hc
      exact hbreak t a t' (hI hC) hc hstep hp
    · exact hP t' (hkeep t a t' (hI hC) hc hstep)
    · exact hkeep t a t' (hI hC.1) hC.2 hstep

/-- The same for a condition on one action. -/
theorem forall_reaches_iff_takes {I P Q : σ → Prop} {a : α} {s : σ} (h₀ : I s)
    (hP : ∀ t, I t → P t)
    (hkeep : ∀ t b t', I t → (b = a → Q t) → step t b = some t' → I t')
    (hbreak : ∀ t t', I t → ¬ Q t → step t a = some t' → ¬ P t') {s' : σ} {as : List α}
    (h : run step s as = some s') :
    (∀ t, Reaches step s as t → P t) ↔ ∀ t, Takes step s as t a → Q t := by
  rw [forall_reaches_iff (C := fun t b => b = a → Q t) h₀ hP hkeep ?_ h]
  · exact forall_congr' fun t =>
      ⟨fun h ht => h a ht rfl, fun h b ht hb => h (hb ▸ ht)⟩
  · intro t b t' hI hc hstep
    obtain ⟨rfl, hq⟩ := Classical.not_imp.mp hc
    exact hbreak t t' hI hq hstep

/-- Along a run whose steps keep `I`, two properties of a step are the same if they are under `I`. -/
theorem forall_takes_congr {I : σ → Prop} {P Q : σ → α → Prop} {s s' : σ} {as : List α} (h₀ : I s)
    (hkeep : ∀ t a t', I t → step t a = some t' → I t')
    (hiff : ∀ t a t', I t → step t a = some t' → (P t a ↔ Q t a)) (h : run step s as = some s') :
    (∀ t a, Takes step s as t a → P t a) ↔ ∀ t a, Takes step s as t a → Q t a := by
  refine forall_congr' fun t => forall_congr' fun a => imp_congr_right ?_
  rintro ⟨before, after, rfl, ht⟩
  have hI : I t :=
    run_induction (P := fun _ => I) h₀ (fun _ t b t' _ => hkeep t b t') before t ht
  rw [run_append, ht, Option.bind_some, run_cons] at h
  obtain ⟨t', hstep, -⟩ := Option.bind_eq_some_iff.mp h
  exact hiff t a t' hI hstep

/-- A property of states that each step under `C` keeps holds at the end of every run under `C`. -/
theorem run_invariant {I : σ → Prop} {C : α → Prop}
    (hstep : ∀ s a s', C a → I s → step s a = some s' → I s') {s s' : σ} {as : List α}
    (hC : ∀ a ∈ as, C a) (hs : I s) (h : run step s as = some s') : I s' := by
  induction as generalizing s with
  | nil =>
    cases h
    exact hs
  | cons a as ih =>
    obtain ⟨t, ht, hr⟩ := Option.bind_eq_some_iff.mp h
    exact ih (fun b hb => hC b (List.mem_cons_of_mem a hb))
      (hstep s a t (hC a List.mem_cons_self) hs ht) hr

/-- The same for the states in which a run takes its steps. -/
theorem takes_invariant {I : σ → Prop} {C : α → Prop}
    (hstep : ∀ s a s', C a → I s → step s a = some s' → I s') {s t : σ} {as : List α} {a : α}
    (hC : ∀ a ∈ as, C a) (hs : I s) (h : Takes step s as t a) : I t := by
  obtain ⟨before, after, rfl, ht⟩ := h
  exact run_invariant hstep (fun b hb => hC b (List.mem_append_left _ hb)) hs ht

/-- The same under a condition on the steps that the run takes. -/
theorem takes_invariant_under {I : σ → Prop} {C : σ → α → Prop}
    (hstep : ∀ s a s', I s → C s a → step s a = some s' → I s') {s t : σ} {as : List α} {a : α}
    (hs : I s) (hC : ∀ t a, Takes step s as t a → C t a) (h : Takes step s as t a) : I t := by
  induction as generalizing s with
  | nil => exact absurd h not_takes_nil
  | cons b as ih =>
    rcases takes_cons.mp h with ⟨rfl, rfl⟩ | ⟨s', hs', h⟩
    · exact hs
    · have hb := hC s b (takes_cons.mpr (.inl ⟨rfl, rfl⟩))
      refine ih (hstep s b s' hs hb hs') (fun t a ht => ?_) h
      exact hC t a (takes_cons.mpr (.inr ⟨s', hs', ht⟩))

/-- The same for the state that the run ends in. -/
theorem run_invariant_under {I : σ → Prop} {C : σ → α → Prop}
    (hstep : ∀ s a s', I s → C s a → step s a = some s' → I s') {s s' : σ} {as : List α}
    (hs : I s) (hC : ∀ t a, Takes step s as t a → C t a) (h : run step s as = some s') : I s' := by
  induction as generalizing s with
  | nil =>
    cases h
    exact hs
  | cons b as ih =>
    obtain ⟨t, ht, hr⟩ := Option.bind_eq_some_iff.mp h
    have hb := hC s b (takes_cons.mpr (.inl ⟨rfl, rfl⟩))
    refine ih (hstep s b t hs hb ht) (fun u a hu => ?_) hr
    exact hC u a (takes_cons.mpr (.inr ⟨t, ht, hu⟩))

/-- An action that a run takes once. -/
theorem Takes.once {s t : σ} {as bs : List α} {a : α} (has : a ∉ as) (hbs : a ∉ bs)
    (h : Takes step s (as ++ a :: bs) t a) : run step s as = some t := by
  obtain ⟨before, after, heq, ht⟩ := h
  obtain ⟨rfl, -, -⟩ := (List.append_cons_inj_of_notMem has hbs).mp heq
  exact ht

theorem Takes.mem {s t : σ} {as : List α} {a : α} (h : Takes step s as t a) : a ∈ as := by
  obtain ⟨before, after, rfl, -⟩ := h
  exact List.mem_append_right _ List.mem_cons_self

theorem run_keeps {I : σ → Prop} (hstep : ∀ s a s', I s → step s a = some s' → I s') {s s' : σ}
    {as : List α} (hs : I s) (h : run step s as = some s') : I s' :=
  run_invariant (C := fun _ => True) (fun s a s' _ => hstep s a s') (fun _ _ => trivial) hs h

end Machine
