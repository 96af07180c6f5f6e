import Mathlib.Data.List.Basic
import Mathlib.Data.Option.Basic

/-!
# Paths with links

* `Path.parse` : the components of a path;
* `Tree.walk` : what a path leads to, and the entries it goes by, links followed;
* `Tree.place` : the entry that a path itself names, which is what is removed by it;
* `walk_remove` : without an entry, the paths that go by it lead nowhere, and the others lead where
  they led.
-/

namespace Paths

/-- A component: `.` or nothing between two slashes, `..`, or a name. -/
inductive Comp (ν : Type) where
  | here
  | up
  | name (n : ν)

structure Path (ν : Type) where
  absolute : Bool
  comps : List (Comp ν)

def Path.parse (s : List Char) : Path (List Char) where
  absolute := s.head? = some '/'
  comps := (s.splitOn '/').map fun f =>
    if f = [] ∨ f = ['.'] then .here else if f = ['.', '.'] then .up else .name f

/-- What an entry stands for. -/
inductive Node (δ ν α : Type) where
  | file (a : α)
  | dir (d : δ)
  | link (target : Path ν)

/-- Directories `δ` with their entries by name. -/
structure Tree (δ ν α : Type) where
  root : δ
  parent : δ → δ
  entries : δ → ν → Option (Node δ ν α)

namespace Tree

variable {δ ν α : Type} (t : Tree δ ν α)

/-- The components one by one, from a directory. What comes behind a link is up to `follow`. -/
def pass (follow : δ → Path ν → List (Comp ν) → Option (List (δ × ν) × Node δ ν α)) :
    δ → List (Comp ν) → Option (List (δ × ν) × Node δ ν α)
  | d, [] => some ([], .dir d)
  | d, .here :: rest => pass follow d rest
  | d, .up :: rest => pass follow (t.parent d) rest
  | d, .name n :: rest =>
    match t.entries d n with
    | none => none
    | some (.file a) => if rest.isEmpty then some ([(d, n)], .file a) else none
    | some (.dir d') => (pass follow d' rest).map fun r => ((d, n) :: r.1, r.2)
    | some (.link target) => (follow d target rest).map fun r => ((d, n) :: r.1, r.2)

/-- Where a path begins. -/
def start (d : δ) (p : Path ν) : δ := if p.absolute then t.root else d

/-- What the components lead to from a directory, by `k` links at most, and the entries on the
way. -/
def walk : Nat → δ → List (Comp ν) → Option (List (δ × ν) × Node δ ν α)
  | 0 => t.pass fun _ _ _ => none
  | k + 1 => t.pass fun d target rest => walk k (t.start d target) (target.comps ++ rest)

def resolve (k : Nat) (d : δ) (p : Path ν) : Option (List (δ × ν) × Node δ ν α) :=
  t.walk k (t.start d p) p.comps

/-- The entry that the last component of a path names, not followed if it is a link. -/
def place (k : Nat) (d : δ) (p : Path ν) : Option (δ × ν) :=
  match p.comps.getLast?, t.walk k (t.start d p) p.comps.dropLast with
  | some (.name n), some (_, .dir d') => some (d', n)
  | _, _ => none

/-- The entry is there, and not for a directory. -/
def removable (e : δ × ν) : Bool :=
  match t.entries e.1 e.2 with
  | some (.file _) | some (.link _) => true
  | some (.dir _) | none => false

variable [DecidableEq δ] [DecidableEq ν]

def remove (e : δ × ν) : Tree δ ν α :=
  { t with entries := fun d n => if (d, n) = e then none else t.entries d n }

/-- The paths of the answer that do not go by the entry. -/
def without (e : δ × ν) (r : Option (List (δ × ν) × Node δ ν α)) :
    Option (List (δ × ν) × Node δ ν α) := r.filter fun r => e ∉ r.1

omit t in
theorem without_of_mem {e : δ × ν} {r : List (δ × ν) × Node δ ν α} (h : e ∈ r.1) :
    without e (some r) = none := by
  simp [without, h]

omit t in
theorem without_of_notMem {e : δ × ν} {r : List (δ × ν) × Node δ ν α} (h : e ∉ r.1) :
    without e (some r) = some r := by
  simp [without, Option.filter_some, h]

omit t in
theorem without_push {e e' : δ × ν} (h : e' ≠ e) (r : Option (List (δ × ν) × Node δ ν α)) :
    (without e r).map (fun r => (e' :: r.1, r.2)) = without e (r.map fun r => (e' :: r.1, r.2)) := by
  unfold without
  rw [Option.filter_map]
  congr 2
  funext r
  simp [h.symm]

omit t in
theorem without_push_self (e : δ × ν) (r : Option (List (δ × ν) × Node δ ν α)) :
    without e (r.map fun r => (e :: r.1, r.2)) = none := by
  cases r with
  | none => rfl
  | some r => simp [without]

theorem pass_remove (e : δ × ν)
    {follow follow' : δ → Path ν → List (Comp ν) → Option (List (δ × ν) × Node δ ν α)}
    (h : ∀ d target rest, follow' d target rest = without e (follow d target rest)) (d : δ)
    (comps : List (Comp ν)) :
    (t.remove e).pass follow' d comps = without e (t.pass follow d comps) := by
  induction comps generalizing d with
  | nil => simp [pass, without, Option.filter_some]
  | cons c rest ih =>
    cases c with
    | here => exact ih d
    | up => exact ih (t.parent d)
    | name n =>
      unfold pass
      rw [show (t.remove e).entries d n = if (d, n) = e then none else t.entries d n from rfl]
      by_cases he : (d, n) = e
      · rw [if_pos he, he]
        cases t.entries d n with
        | none => rfl
        | some x =>
          cases x with
          | file a => cases rest <;> simp [without, Option.filter_some]
          | dir d' => exact (without_push_self e _).symm
          | link target => exact (without_push_self e _).symm
      · rw [if_neg he]
        cases t.entries d n with
        | none => rfl
        | some x =>
          cases x with
          | file a => cases rest <;> simp [without, Option.filter_some, Ne.symm he]
          | dir d' =>
            dsimp only
            rw [ih d', without_push he]
          | link target =>
            dsimp only
            rw [h d target rest, without_push he]

/-- **Without an entry, a path that goes by it leads nowhere, and any other one where it led.** -/
theorem walk_remove (e : δ × ν) (k : Nat) (d : δ) (comps : List (Comp ν)) :
    (t.remove e).walk k d comps = without e (t.walk k d comps) := by
  induction k generalizing d comps with
  | zero =>
    refine t.pass_remove e (fun _ _ _ => ?_) d comps
    rfl
  | succ k ih => exact t.pass_remove e (fun d target rest => ih (t.start d target) _) d comps

theorem resolve_remove (e : δ × ν) (k : Nat) (d : δ) (p : Path ν) :
    (t.remove e).resolve k d p = without e (t.resolve k d p) :=
  t.walk_remove e k (t.start d p) p.comps

end Tree

end Paths
