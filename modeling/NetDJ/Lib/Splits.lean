import NetDJ.Lib.Ere

/-!
# What an expression matches, text by text

A match is read as a split of the string: the text that is matched, and what follows it. What follows
stays in sight, since it decides how far the repetitions go.

* `Ere.Splits r x t` : `r` matches `x` when `t` follows, with one rule for each expression;
* `Ere.Reads r x t gs` : the same with the groups; of two expressions in a row the first takes the
  longest text that the second allows (`Reads.seq`, `Reads.seq_inv`);
* `Stops.unique` : a text of one class is delimited by the character that stops it;
* `Regex.exec_reads`, `Regex.exec_whole`, `Regex.reads_of_exec` : the match at the start of the string;
* `Regex.exec_dropWhile`, `Regex.splits_of_exec` : the search for a match.
-/

namespace Ere

variable {χ : Type*} {p : χ → Bool} {r q : Ere χ} {x y z t : List χ}

/-- `r` matches `x` when `t` follows. -/
def Splits (r : Ere χ) (x t : List χ) : Prop := x.length ∈ r.ends (x ++ t)

theorem mem_ends_iff {s : List χ} {n : Nat} :
    n ∈ r.ends s ↔ ∃ x t, s = x ++ t ∧ n = x.length ∧ r.Splits x t := by
  constructor
  · intro h
    have hn := le_length_of_mem_ends r s n h
    have hlen : (s.take n).length = n := List.length_take_of_le hn
    refine ⟨s.take n, s.drop n, (List.take_append_drop n s).symm, hlen.symm, ?_⟩
    rw [Splits, List.take_append_drop, hlen]
    exact h
  · rintro ⟨x, t, rfl, rfl, h⟩
    exact h

theorem length_le_span : x.length ≤ span p (x ++ t) ↔ ∀ c ∈ x, p c = true := by
  induction x with
  | nil => simp
  | cons c x ih =>
    rw [span, List.cons_append, List.takeWhile_cons, List.forall_mem_cons, ← ih]
    split
    · next hc => simp [hc, span]
    · next hc => simp [hc]

theorem splits_one : (one p).Splits x t ↔ ∃ c, p c = true ∧ x = [c] := by
  rw [Splits, ends]
  constructor
  · intro h
    split at h
    · next hs =>
      obtain ⟨c, rfl⟩ := List.length_eq_one_iff.mp (List.mem_singleton.mp h)
      have hc := length_le_span.mp (show [c].length ≤ span p ([c] ++ t) from hs)
      exact ⟨c, hc c List.mem_cons_self, rfl⟩
    · cases h
  · rintro ⟨c, hc, rfl⟩
    have hs : [c].length ≤ span p ([c] ++ t) :=
      length_le_span.mpr fun d hd => List.mem_singleton.mp hd ▸ hc
    rw [if_pos (show 0 < span p ([c] ++ t) from hs)]
    exact List.mem_singleton.mpr rfl

theorem splits_many : (many p).Splits x t ↔ ∀ c ∈ x, p c = true := by
  rw [Splits, ends, List.mem_range, Nat.lt_succ_iff]
  exact length_le_span

theorem splits_many1 : (many1 p).Splits x t ↔ x ≠ [] ∧ ∀ c ∈ x, p c = true := by
  rw [Splits, ends, ← length_le_span (t := t), List.mem_map, ← List.length_pos_iff]
  constructor
  · rintro ⟨k, hk, hx⟩
    rw [List.mem_range] at hk
    omega
  · rintro ⟨hx, hs⟩
    exact ⟨x.length - 1, List.mem_range.mpr (by omega), by omega⟩

theorem splits_group : (group r).Splits x t ↔ r.Splits x t := Iff.rfl

theorem splits_opt : (opt r).Splits x t ↔ x = [] ∨ r.Splits x t := by
  rw [Splits, ends, List.mem_cons, List.length_eq_zero_iff]
  rfl

theorem splits_eol : (eol : Ere χ).Splits x t ↔ x = [] ∧ t = [] := by
  rw [Splits, ends]
  split
  · next h =>
    rw [List.isEmpty_iff, List.append_eq_nil_iff] at h
    exact iff_of_true (by simp [h.1]) h
  · next h =>
    rw [List.isEmpty_iff, List.append_eq_nil_iff] at h
    exact iff_of_false List.not_mem_nil h

theorem splits_seq : (seq r q).Splits x t ↔
    ∃ y z, x = y ++ z ∧ r.Splits y (z ++ t) ∧ q.Splits z t := by
  rw [Splits, ends, List.mem_flatMap]
  constructor
  · rintro ⟨k, hk, h⟩
    obtain ⟨m, hm, hx⟩ := List.mem_map.mp h
    obtain ⟨y, u, hs, rfl, hy⟩ := mem_ends_iff.mp hk
    rw [hs, List.drop_left] at hm
    obtain ⟨z, v, rfl, rfl, hz⟩ := mem_ends_iff.mp hm
    rw [← List.append_assoc] at hs
    obtain ⟨rfl, rfl⟩ := List.append_inj hs (by rw [List.length_append, hx])
    exact ⟨y, z, rfl, hy, hz⟩
  · rintro ⟨y, z, rfl, hy, hz⟩
    refine ⟨y.length, ?_, List.mem_map.mpr ⟨z.length, ?_, List.length_append.symm⟩⟩
    · rw [List.append_assoc]
      exact hy
    · rw [List.append_assoc, List.drop_left]
      exact hz

theorem Splits.cons {c : χ} (hc : p c = true) (h : q.Splits x t) :
    (seq (one p) q).Splits (c :: x) t :=
  splits_seq.mpr ⟨[c], x, rfl, splits_one.mpr ⟨c, hc, rfl⟩, h⟩

/-! ## Groups -/

theorem groups_eq_nil : ∀ (r : Ere χ) (s : List χ) (n : Nat), r.groupCount = 0 → r.groups s n = []
  | one _, _, _, _ | many _, _, _, _ | many1 _, _, _, _ | eol, _, _, _ => rfl
  | seq r q, s, n, h => by
    rw [groupCount, Nat.add_eq_zero_iff] at h
    rw [groups, groups_eq_nil r _ _ h.1, groups_eq_nil q _ _ h.2]
    rfl
  | opt r, s, n, h => by
    rw [groupCount] at h
    rw [groups, groups_eq_nil r _ _ h, h]
    split <;> rfl

/-- The ends of the first of two expressions that let the second match the rest of `x`. -/
def cuts (r q : Ere χ) (x t : List χ) : List Nat :=
  (r.ends (x ++ t)).filter fun k =>
    k ≤ x.length && (q.ends ((x ++ t).drop k)).contains (x.length - k)

theorem mem_cuts {k : Nat} : k ∈ cuts r q x t ↔
    ∃ y z, x = y ++ z ∧ k = y.length ∧ r.Splits y (z ++ t) ∧ q.Splits z t := by
  rw [cuts, List.mem_filter, Bool.and_eq_true, decide_eq_true_iff, List.contains_iff_mem]
  constructor
  · rintro ⟨hk, hkx, hm⟩
    obtain ⟨y, u, hs, rfl, hy⟩ := mem_ends_iff.mp hk
    rw [hs, List.drop_left] at hm
    obtain ⟨z, v, rfl, hz, hq⟩ := mem_ends_iff.mp hm
    rw [← List.append_assoc] at hs
    obtain ⟨rfl, rfl⟩ := List.append_inj hs (by rw [@List.length_append _ y z]; omega)
    exact ⟨y, z, rfl, rfl, hy, hq⟩
  · rintro ⟨y, z, rfl, rfl, hy, hq⟩
    rw [List.append_assoc, List.drop_left, List.length_append, Nat.add_sub_cancel_left]
    exact ⟨hy, Nat.le_add_right _ _, hq⟩

/-- Two expressions in a row, of which the first takes `y`. -/
theorem groups_seq (hmax : (cuts r q (y ++ z) t).max? = some y.length) :
    (seq r q).groups (y ++ z ++ t) (y ++ z).length =
      r.groups (y ++ (z ++ t)) y.length ++ q.groups (z ++ t) z.length := by
  rw [cuts] at hmax
  rw [groups]
  simp only [hmax, Option.getD_some]
  rw [List.append_assoc, List.drop_left, List.length_append, Nat.add_sub_cancel_left]

/-- No character of the class comes first. -/
def Stops (p : χ → Bool) (s : List χ) : Prop := ∀ c ∈ s.head?, p c = false

theorem stops_cons {c : χ} {s : List χ} : Stops p (c :: s) ↔ p c = false := by
  simp [Stops]

/-- A text of the class that is a prefix ends where the class stops. -/
theorem Stops.length_le {y' z' : List χ} (hz : Stops p z) (he : y' ++ z' = y ++ z)
    (hy : ∀ c ∈ y', p c = true) : y'.length ≤ y.length := by
  by_contra hlt
  rw [List.append_eq_append_iff] at he
  rcases he with ⟨a, rfl, -⟩ | ⟨a, rfl, rfl⟩
  · simp at hlt
  · cases a with
    | nil => simp at hlt
    | cons c a =>
      have hc := hy c (by simp)
      rw [stops_cons.mp (show Stops p (c :: (a ++ z')) from hz)] at hc
      cases hc

theorem Stops.unique {y' z' : List χ} (hz : Stops p z) (hz' : Stops p z')
    (hy : ∀ c ∈ y, p c = true) (hy' : ∀ c ∈ y', p c = true) (he : y ++ z = y' ++ z') :
    y = y' ∧ z = z' :=
  List.append_inj he (le_antisymm (hz'.length_le he hy) (hz.length_le he.symm hy'))

/-- `r` matches `x` when `t` follows, and these are its groups. -/
structure Reads (r : Ere χ) (x t : List χ) (gs : List (Option (List χ))) : Prop where
  splits : r.Splits x t
  groups : r.groups (x ++ t) x.length = gs

namespace Reads

variable {gs hs : List (Option (List χ))} {c : χ}

theorem of_splits (h : r.Splits x t) (hr : r.groupCount = 0) : r.Reads x t [] :=
  ⟨h, groups_eq_nil r _ _ hr⟩

theorem group (h : r.Reads x t gs) : (group r).Reads x t (some x :: gs) := by
  refine ⟨h.splits, ?_⟩
  rw [Ere.groups, List.take_left, h.groups]

theorem opt (h : r.Reads x t gs) : (opt r).Reads x t gs := by
  refine ⟨splits_opt.mpr (.inr h.splits), ?_⟩
  rw [Ere.groups, if_pos (List.contains_iff_mem.mpr h.splits), h.groups]

/-- An optional expression that takes no part has groups without a text. -/
theorem opt_nil (h : ¬ r.Splits [] t) :
    (Ere.opt r).Reads [] t (List.replicate r.groupCount none) := by
  refine ⟨splits_opt.mpr (.inl rfl), ?_⟩
  rw [Ere.groups, if_neg (mt List.contains_iff_mem.mp h)]

/-- Two expressions in a row: the first takes the longest text that lets the second match. -/
theorem seq (hr : r.Reads y (z ++ t) gs) (hq : q.Reads z t hs)
    (longest : ∀ y' z', y' ++ z' = y ++ z → r.Splits y' (z' ++ t) → q.Splits z' t →
      y'.length ≤ y.length) : (seq r q).Reads (y ++ z) t (gs ++ hs) := by
  have hmax : (cuts r q (y ++ z) t).max? = some y.length := by
    refine List.max?_eq_some_iff.mpr ⟨mem_cuts.mpr ⟨y, z, rfl, rfl, hr.splits, hq.splits⟩, ?_⟩
    intro k hk
    obtain ⟨y', z', he, rfl, hy, hz⟩ := mem_cuts.mp hk
    exact longest y' z' he.symm hy hz
  refine ⟨splits_seq.mpr ⟨y, z, rfl, hr.splits, hq.splits⟩, ?_⟩
  rw [groups_seq hmax, hr.groups, hq.groups]

/-- The text is shared between two expressions in a row, and so are the groups. The first one has
the longest text that lets the second match. -/
theorem seq_inv (h : (Ere.seq r q).Reads x t gs) : ∃ y z gs' hs', x = y ++ z ∧
    r.Reads y (z ++ t) gs' ∧ q.Reads z t hs' ∧ gs = gs' ++ hs' ∧
      ∀ y' z', x = y' ++ z' → r.Splits y' (z' ++ t) → q.Splits z' t → y'.length ≤ y.length := by
  obtain ⟨y₀, z₀, rfl, hy₀, hz₀⟩ := splits_seq.mp h.splits
  have hmem : y₀.length ∈ cuts r q (y₀ ++ z₀) t := mem_cuts.mpr ⟨y₀, z₀, rfl, rfl, hy₀, hz₀⟩
  obtain ⟨k, hk⟩ : ∃ k, (cuts r q (y₀ ++ z₀) t).max? = some k := by
    refine Option.ne_none_iff_exists'.mp fun hnone => ?_
    rw [List.max?_eq_none_iff.mp hnone] at hmem
    cases hmem
  obtain ⟨hkmem, hle⟩ := List.max?_eq_some_iff.mp hk
  obtain ⟨y, z, he, rfl, hy, hz⟩ := mem_cuts.mp hkmem
  have hgroups := h.groups
  refine ⟨y, z, _, _, he, ⟨hy, rfl⟩, ⟨hz, rfl⟩, ?_, fun y' z' he' hy' hz' => ?_⟩
  · rw [he] at hk hgroups
    rw [groups_seq hk] at hgroups
    exact hgroups.symm
  · exact hle _ (mem_cuts.mpr ⟨y', z', he', rfl, hy', hz'⟩)

theorem leaf_seq_inv (h : (Ere.seq r q).Reads x t gs) (hr : r.groupCount = 0) :
    ∃ y z, x = y ++ z ∧ r.Splits y (z ++ t) ∧ q.Reads z t gs := by
  obtain ⟨y, z, gs', hs', rfl, hy, hz, rfl, -⟩ := h.seq_inv
  obtain rfl : gs' = [] := hy.groups.symm.trans (groups_eq_nil r _ _ hr)
  exact ⟨y, z, rfl, hy.splits, hz⟩

theorem one_seq_inv (h : (Ere.seq (one p) q).Reads x t gs) :
    ∃ c z, x = c :: z ∧ p c = true ∧ q.Reads z t gs := by
  obtain ⟨y, z, rfl, hy, hz⟩ := h.leaf_seq_inv rfl
  obtain ⟨c, hc, rfl⟩ := splits_one.mp hy
  exact ⟨c, z, rfl, hc, hz⟩

theorem group_inv (h : (Ere.group r).Reads x t gs) (hr : r.groupCount = 0) : gs = [some x] := by
  have hgroups := h.groups
  rw [Ere.groups, List.take_left, groups_eq_nil r _ _ hr] at hgroups
  exact hgroups.symm

theorem group_seq_inv (h : (Ere.seq (Ere.group r) q).Reads x t gs) (hr : r.groupCount = 0) :
    ∃ y z hs, x = y ++ z ∧ r.Splits y (z ++ t) ∧ q.Reads z t hs ∧ gs = some y :: hs ∧
      ∀ y' z', x = y' ++ z' → r.Splits y' (z' ++ t) → q.Splits z' t → y'.length ≤ y.length := by
  obtain ⟨y, z, gs', hs', rfl, hy, hz, rfl, hlongest⟩ := h.seq_inv
  exact ⟨y, z, hs', rfl, hy.splits, hz, by rw [hy.group_inv hr]; rfl, hlongest⟩

theorem one_seq (hc : p c = true) (hq : q.Reads z t hs) : (Ere.seq (one p) q).Reads (c :: z) t hs :=
  seq (y := [c]) (of_splits (splits_one.mpr ⟨c, hc, rfl⟩) rfl) hq fun y' _ _ hy _ => by
    obtain ⟨d, -, rfl⟩ := splits_one.mp hy
    exact le_rfl

/-- The first expression takes all characters of a class up to one that stops it. -/
theorem many_seq (hy : ∀ c ∈ y, p c = true) (hz : Stops p z) (hq : q.Reads z t hs) :
    (Ere.seq (many p) q).Reads (y ++ z) t hs :=
  seq (of_splits (splits_many.mpr hy) rfl) hq fun _ _ he hy' _ =>
    hz.length_le he (splits_many.mp hy')

theorem many1_seq (hne : y ≠ []) (hy : ∀ c ∈ y, p c = true) (hz : Stops p z)
    (hq : q.Reads z t hs) : (Ere.seq (many1 p) q).Reads (y ++ z) t hs :=
  seq (of_splits (splits_many1.mpr ⟨hne, hy⟩) rfl) hq fun _ _ he hy' _ =>
    hz.length_le he (splits_many1.mp hy').2

theorem group_many1 (hne : y ≠ []) (hy : ∀ c ∈ y, p c = true) :
    (Ere.group (many1 p)).Reads y t [some y] :=
  (of_splits (splits_many1.mpr ⟨hne, hy⟩) rfl).group

theorem group_many1_seq (hne : y ≠ []) (hy : ∀ c ∈ y, p c = true) (hz : Stops p z)
    (hq : q.Reads z t hs) : (Ere.seq (Ere.group (many1 p)) q).Reads (y ++ z) t (some y :: hs) :=
  seq (group_many1 hne hy) hq fun _ _ he hy' _ => hz.length_le he (splits_many1.mp hy').2

end Reads

end Ere

namespace Regex

open Ere

variable {χ : Type*} {r : Regex χ} {s x t : List χ}

theorem exec_bol (hb : r.bol = true) (s : List χ) :
    r.exec s = (r.body.ends s).max?.map fun n => (n, r.body.groups s n) := by
  cases s with
  | nil => simp [exec, execFrom]
  | cons c s =>
    rw [exec, execFrom]
    cases (r.body.ends (c :: s)).max? with
    | none => simp [hb]
    | some n => simp

theorem max_ends (hx : r.body.Splits x t)
    (longest : ∀ y u, y ++ u = x ++ t → r.body.Splits y u → y.length ≤ x.length) :
    (r.body.ends (x ++ t)).max? = some x.length := by
  refine List.max?_eq_some_iff.mpr ⟨hx, fun n hn => ?_⟩
  obtain ⟨y, u, he, rfl, hy⟩ := mem_ends_iff.mp hn
  exact longest y u he.symm hy

theorem exec_of_max {n : Nat} (h : (r.body.ends s).max? = some n) :
    r.exec s = some (n, r.body.groups s n) := by
  cases s with
  | nil => simp [exec, execFrom, h]
  | cons c s => simp [exec, execFrom, h]

/-- The longest text that the expression matches at the start of the string. -/
theorem exec_reads {gs : List (Option (List χ))} (hx : r.body.Reads x t gs)
    (longest : ∀ y u, y ++ u = x ++ t → r.body.Splits y u → y.length ≤ x.length) :
    r.exec (x ++ t) = some (x.length, gs) := by
  rw [exec_of_max (max_ends hx.splits longest), hx.groups]

/-- An expression that matches the whole string. -/
theorem exec_whole {gs : List (Option (List χ))} (h : r.body.Reads s [] gs) :
    r.exec s = some (s.length, gs) := by
  have hexec := exec_reads h fun y u he _ => by
    rw [List.append_nil] at he
    rw [← he, List.length_append]
    exact Nat.le_add_right _ _
  rwa [List.append_nil] at hexec

theorem reads_of_exec (hb : r.bol = true) {n : Nat} {gs : List (Option (List χ))}
    (h : r.exec s = some (n, gs)) : ∃ x t, s = x ++ t ∧ n = x.length ∧ r.body.Reads x t gs ∧
      ∀ y u, y ++ u = s → r.body.Splits y u → y.length ≤ x.length := by
  rw [exec_bol hb] at h
  obtain ⟨m, hm, he⟩ := Option.map_eq_some_iff.mp h
  cases he
  obtain ⟨hmem, hle⟩ := List.max?_eq_some_iff.mp hm
  obtain ⟨x, t, rfl, rfl, hx⟩ := mem_ends_iff.mp hmem
  refine ⟨x, t, rfl, rfl, ⟨hx, rfl⟩, fun y u he hy => ?_⟩
  exact hle y.length (mem_ends_iff.mpr ⟨y, u, he.symm, rfl, hy⟩)

theorem exec_eq_none (hb : r.bol = true) :
    r.exec s = none ↔ ∀ x t, s = x ++ t → ¬ r.body.Splits x t := by
  rw [exec_bol hb, Option.map_eq_none_iff, List.max?_eq_none_iff, List.eq_nil_iff_forall_not_mem]
  constructor
  · rintro h x t rfl hx
    exact h x.length hx
  · intro h n hn
    obtain ⟨x, t, he, -, hx⟩ := mem_ends_iff.mp hn
    exact h x t he hx

/-! ## The search -/

theorem execFrom_add (s : List χ) (i k : Nat) :
    r.execFrom (i + k) s = (r.execFrom i s).map fun m => (m.1 + k, m.2) := by
  induction s generalizing i with
  | nil => simp [execFrom, Function.comp_def, Nat.add_right_comm]
  | cons c s ih =>
    rw [execFrom, execFrom]
    cases (r.body.ends (c :: s)).max? with
    | some n => simp [Nat.add_right_comm]
    | none =>
      dsimp only
      split
      · rfl
      · rw [Nat.add_right_comm, ih]

/-- Characters at which no match starts are passed over. -/
theorem exec_dropWhile {p : χ → Bool} (hb : r.bol = false)
    (hskip : ∀ c x t, p c = true → ¬ r.body.Splits (c :: x) t) (hnil : ∀ t, ¬ r.body.Splits [] t)
    (s : List χ) :
    r.exec s = (r.exec (s.dropWhile p)).map fun m => (m.1 + span p s, m.2) := by
  induction s with
  | nil => simp [span]
  | cons c s ih =>
    cases hc : p c with
    | false => simp [span, hc]
    | true =>
      have hnone : r.body.ends (c :: s) = [] := by
        refine List.eq_nil_iff_forall_not_mem.mpr fun n hn => ?_
        obtain ⟨x, t, he, -, hx⟩ := mem_ends_iff.mp hn
        cases x with
        | nil => exact hnil t hx
        | cons d x =>
          obtain ⟨rfl, -⟩ := List.cons.inj he
          exact hskip c x t hc hx
      rw [List.dropWhile_cons_of_pos hc, exec, execFrom, hnone, hb]
      show r.execFrom (0 + 1) s = _
      rw [execFrom_add, ← exec, ih, Option.map_map]
      simp [Function.comp_def, span, hc, Nat.add_assoc]

/-- Where there is a match, a text of the string is matched. -/
theorem splits_of_exec {m : Nat × List (Option (List χ))} (h : r.exec s = some m) :
    ∃ z x t, s = z ++ (x ++ t) ∧ r.body.Splits x t := by
  suffices hfrom : ∀ i, r.execFrom i s = some m → ∃ z x t, s = z ++ (x ++ t) ∧ r.body.Splits x t by
    exact hfrom 0 h
  clear h
  have here : ∀ {s n}, (r.body.ends s).max? = some n →
      ∃ z x t, s = z ++ (x ++ t) ∧ r.body.Splits x t := by
    intro s n hn
    obtain ⟨x, t, he, -, hx⟩ := mem_ends_iff.mp (List.max?_mem hn)
    exact ⟨[], x, t, he, hx⟩
  induction s with
  | nil =>
    intro i h
    obtain ⟨n, hn, -⟩ := Option.map_eq_some_iff.mp h
    exact here hn
  | cons c s ih =>
    intro i h
    rw [execFrom] at h
    split at h
    · next n hn => exact here hn
    · split at h
      · cases h
      · obtain ⟨z, x, t, rfl, hx⟩ := ih (i + 1) h
        exact ⟨c :: z, x, t, rfl, hx⟩

end Regex
