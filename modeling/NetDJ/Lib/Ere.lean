import Mathlib.Data.List.TakeWhile
import Mathlib.Data.List.MinMax

/-!
# POSIX extended regular expressions: leftmost-longest matching

The fragment whose repetitions are over character classes. A match is the leftmost one, of the
greatest length possible there; inside it each part, from left to right, takes the greatest length
that lets the rest fill what remains. This fixes the text of every group.

* `Ere.ends r s` : the lengths of the prefixes of `s` that `r` matches;
* `Ere.groups r s n` : the groups when `r` matches the first `n` characters of `s`, `none` for a
  group that takes no part;
* `Regex.exec` : the end of the match and its groups;
* `Regex.tokens` : the loop that matches, uses the groups and goes on behind the match
  (`tokens_eq` is its equation).
-/

/-- An expression over the characters `χ`. -/
inductive Ere (χ : Type*) where
  /-- One character of the class. -/
  | one (p : χ → Bool)
  /-- Any number of characters of the class. -/
  | many (p : χ → Bool)
  /-- At least one character of the class. -/
  | many1 (p : χ → Bool)
  /-- The end of the string. -/
  | eol
  | seq (r t : Ere χ)
  | opt (r : Ere χ)
  | group (r : Ere χ)

namespace Ere

variable {χ : Type*}

def chr [BEq χ] (c : χ) : Ere χ := one (· == c)

def cat : Ere χ → List (Ere χ) → Ere χ
  | r, [] => r
  | r, t :: ts => seq r (cat t ts)

/-- The length of the longest prefix of `s` inside the class. -/
def span (p : χ → Bool) (s : List χ) : Nat := (s.takeWhile p).length

theorem span_le (p : χ → Bool) (s : List χ) : span p s ≤ s.length :=
  (s.takeWhile_sublist p).length_le

/-- The lengths of the prefixes of `s` that `r` matches. -/
def ends : Ere χ → List χ → List Nat
  | one p, s => if 0 < span p s then [1] else []
  | many p, s => List.range (span p s + 1)
  | many1 p, s => (List.range (span p s)).map (· + 1)
  | eol, s => if s.isEmpty then [0] else []
  | seq r t, s => (r.ends s).flatMap fun n => (t.ends (s.drop n)).map (n + ·)
  | opt r, s => 0 :: r.ends s
  | group r, s => r.ends s

theorem le_length_of_mem_ends : ∀ (r : Ere χ) (s : List χ), ∀ n ∈ r.ends s, n ≤ s.length
  | one p, s, n, h => by
    have hs := span_le p s
    simp only [ends] at h
    split at h
    · rw [List.mem_singleton] at h
      omega
    · exact absurd h List.not_mem_nil
  | many p, s, n, h => by
    have hs := span_le p s
    simp only [ends, List.mem_range] at h
    omega
  | many1 p, s, n, h => by
    have hs := span_le p s
    simp only [ends, List.mem_map, List.mem_range] at h
    omega
  | eol, s, n, h => by
    simp only [ends] at h
    split at h
    · rw [List.mem_singleton] at h
      omega
    · exact absurd h List.not_mem_nil
  | seq r t, s, n, h => by
    simp only [ends, List.mem_flatMap, List.mem_map] at h
    obtain ⟨k, hk, m, hm, rfl⟩ := h
    have h₁ := le_length_of_mem_ends r s k hk
    have h₂ := le_length_of_mem_ends t (s.drop k) m hm
    rw [List.length_drop] at h₂
    omega
  | opt r, s, n, h => by
    simp only [ends, List.mem_cons] at h
    rcases h with rfl | h
    · omega
    · exact le_length_of_mem_ends r s n h
  | group r, s, n, h => le_length_of_mem_ends r s n h

def groupCount : Ere χ → Nat
  | seq r t => r.groupCount + t.groupCount
  | opt r => r.groupCount
  | group r => r.groupCount + 1
  | _ => 0

/-- The groups of `r`, in the order of their opening parentheses, when `r` matches the first `n`
characters of `s`. -/
def groups : Ere χ → List χ → Nat → List (Option (List χ))
  | seq r t, s, n =>
    let k := ((r.ends s).filter fun k => k ≤ n && (t.ends (s.drop k)).contains (n - k)).max?.getD 0
    r.groups s k ++ t.groups (s.drop k) (n - k)
  | opt r, s, n => if (r.ends s).contains n then r.groups s n else List.replicate r.groupCount none
  | group r, s, n => some (s.take n) :: r.groups s n
  | _, _, _ => []

end Ere

/-- An expression and whether it may match at the start of the string only. -/
structure Regex (χ : Type*) where
  bol : Bool
  body : Ere χ

namespace Regex

variable {χ : Type*} (r : Regex χ)

/-- The search from the suffix `s`, which starts at the position `i`. -/
def execFrom : Nat → List χ → Option (Nat × List (Option (List χ)))
  | i, [] => (r.body.ends []).max?.map fun n => (i + n, r.body.groups [] n)
  | i, c :: s =>
    match (r.body.ends (c :: s)).max? with
    | some n => some (i + n, r.body.groups (c :: s) n)
    | none => if r.bol then none else execFrom (i + 1) s

/-- The end of the leftmost-longest match and the text of its groups. -/
def exec (s : List χ) : Option (Nat × List (Option (List χ))) := r.execFrom 0 s

theorem end_le_of_execFrom : ∀ (s : List χ) (i : Nat) (m : Nat × List (Option (List χ))),
    r.execFrom i s = some m → m.1 ≤ i + s.length
  | [], i, m, h => by
    obtain ⟨n, hn, rfl⟩ := Option.map_eq_some_iff.mp h
    have := r.body.le_length_of_mem_ends [] n (List.max?_mem hn)
    exact Nat.add_le_add_left this i
  | c :: s, i, m, h => by
    rw [execFrom] at h
    split at h
    next n hn =>
      cases h
      have := r.body.le_length_of_mem_ends (c :: s) n (List.max?_mem hn)
      exact Nat.add_le_add_left this i
    next =>
      split at h
      · cases h
      · have := end_le_of_execFrom s (i + 1) m h
        rw [List.length_cons]
        omega

theorem end_le_of_exec {s : List χ} {m : Nat × List (Option (List χ))} (h : r.exec s = some m) :
    m.1 ≤ s.length := by
  simpa using r.end_le_of_execFrom s 0 m h

/-- The groups up to the first one that takes no part. -/
def texts (gs : List (Option (List χ))) : List (List χ) :=
  (gs.takeWhile Option.isSome).filterMap id

/-- At most `fuel` rounds of `tokens`. -/
def tokensFuel : Nat → List χ → List (List (List χ)) × Nat
  | 0, _ => ([], 0)
  | fuel + 1, s =>
    match r.exec s with
    | none | some (0, _) => ([], 0)
    | some (n + 1, gs) =>
      let rest := tokensFuel fuel (s.drop (n + 1))
      (texts gs :: rest.1, n + 1 + rest.2)

/-- The loop that matches at the current position, notes the groups and moves behind the match,
until there is no match or an empty one at the start: the groups of each round, and the position
reached. -/
def tokens (s : List χ) : List (List (List χ)) × Nat := r.tokensFuel s.length s

theorem tokensFuel_eq_of_length_le : ∀ (fuel : Nat) (s : List χ), s.length ≤ fuel →
    r.tokensFuel fuel s = r.tokensFuel s.length s
  | 0, s, h => by rw [Nat.le_zero.mp h]
  | fuel + 1, [], _ => by
    rw [tokensFuel, List.length_nil, tokensFuel]
    split
    · rfl
    · rfl
    next n gs he => exact absurd (r.end_le_of_exec he) (by simp)
  | fuel + 1, c :: s, h => by
    rw [tokensFuel, List.length_cons, tokensFuel]
    split
    · rfl
    · rfl
    next n gs he =>
      have hd : ((c :: s).drop (n + 1)).length ≤ s.length := by simp
      have hf : s.length ≤ fuel := by simpa using h
      rw [tokensFuel_eq_of_length_le fuel _ (hd.trans hf),
        tokensFuel_eq_of_length_le s.length _ hd]
  termination_by fuel s => fuel + s.length
  decreasing_by all_goals simp_wf; omega

theorem tokens_eq (s : List χ) :
    r.tokens s = match r.exec s with
      | none | some (0, _) => ([], 0)
      | some (n + 1, gs) =>
        (texts gs :: (r.tokens (s.drop (n + 1))).1, n + 1 + (r.tokens (s.drop (n + 1))).2) := by
  rw [tokens, ← tokensFuel_eq_of_length_le r (s.length + 1) s (Nat.le_succ _), tokensFuel]
  split
  · rfl
  · rfl
  · rw [tokensFuel_eq_of_length_le r s.length _ (by simp)]
    rfl

end Regex
