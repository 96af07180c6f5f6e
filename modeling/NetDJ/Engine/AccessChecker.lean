import NetDJ.Engine.QString

/-!
# `AccessChecker.cpp`: the table of users

* `SimpleAccessChecker` : a table whose names and passwords are fields (`IsField`), which is what
  `Init` makes of any file;
* `init`, `hasAccess` : the two functions of the interface;
* `hasAccess_iff` : the table lookup.
-/

namespace NetDJ.Engine

structure UserInfo where
  mPassword : Str
  /-- An `unsigned int`. -/
  mLevel : BitVec 32
  deriving DecidableEq

/-- A text that a line of the user file can hold between its colons. -/
def IsField (s : Str) : Prop := s ≠ [] ∧ ':' ∉ s

structure SimpleAccessChecker where
  mUsers : StdMap Str UserInfo
  fields : ∀ name info, mUsers.lookup name = some info → IsField name ∧ IsField info.mPassword

namespace SimpleAccessChecker

def empty : SimpleAccessChecker := ⟨∅, fun name _ h => by simp at h⟩

/-- `mUsers[name].mPassword = ..; mUsers[name].mLevel = ..`. -/
def set (a : SimpleAccessChecker) (name : Str) (info : UserInfo) (hn : IsField name)
    (hp : IsField info.mPassword) : SimpleAccessChecker where
  mUsers := a.mUsers.insert name info
  fields name' info' h := by
    by_cases hne : name' = name
    · subst hne
      rw [AList.lookup_insert] at h
      cases h
      exact ⟨hn, hp⟩
    · rw [AList.lookup_insert_ne hne] at h
      exact a.fields name' info' h

theorem isField_strip {s : Str} {i : Nat} (h : stripWhiteSpace (qsection s ':' i (some i)) ≠ []) :
    IsField (stripWhiteSpace (qsection s ':' i (some i))) :=
  ⟨h, fun hc => notMem_qsection s ':' i (stripWhiteSpace_subset _ hc)⟩

def initLine (a : SimpleAccessChecker) (line : Str) : SimpleAccessChecker :=
  if line = [] ∨ line.head? = some '#' then a
  else if h : stripWhiteSpace (qsection line ':' 0 (some 0)) ≠ [] ∧
      stripWhiteSpace (qsection line ':' 1 (some 1)) ≠ [] ∧
      stripWhiteSpace (qsection line ':' 2 none) ≠ [] then
    a.set (stripWhiteSpace (qsection line ':' 0 (some 0)))
      ⟨stripWhiteSpace (qsection line ':' 1 (some 1)),
        BitVec.ofInt 32 (toInt (stripWhiteSpace (qsection line ':' 2 none)))⟩
      (isField_strip h.1) (isField_strip h.2.1)
  else a

/-- `Init`, on the lines of a file that could be opened. -/
def init (lines : List Str) : SimpleAccessChecker := lines.foldl initLine empty

def hasAccess (a : SimpleAccessChecker) (aUsername aPassword : Str) (aLevel : BitVec 32) : Bool :=
  match a.mUsers.lookup aUsername with
  | some info => info.mPassword = aPassword && aLevel ≤ info.mLevel
  | none => false

theorem hasAccess_iff (a : SimpleAccessChecker) (name password : Str) (level : BitVec 32) :
    a.hasAccess name password level = true ↔
      ∃ info, a.mUsers.lookup name = some info ∧ info.mPassword = password ∧
        level ≤ info.mLevel := by
  rw [hasAccess]
  cases a.mUsers.lookup name with
  | none => simp
  | some info => simp

end SimpleAccessChecker

end NetDJ.Engine
