import NetDJ.Daemon.HTTP

/-!
# `AccessConf.cc`: who may do what

* `isAccessAllowed` : the check of a `name:password` text against the users;
* `isAccessAllowed_iff` : what it takes to be let in;
* `Credentials`, `exec_accessreg` : the text is split at its first colon behind the leading ones;
* `allowed_iff` : so the users that are let in are those with the right password and level.
-/

namespace NetDJ.Daemon

structure User where
  level : Int
  password : Str
  deriving DecidableEq

abbrev Users := StdMap Str User

inductive UserLevel where
  | null
  | user
  | powerUser
  | privUser
  | admin

def UserLevel.value : UserLevel → Int
  | null => 0
  | user => 50
  | powerUser => 100
  | privUser => 200
  | admin => 1000

/-- `"([^:]+):(.+)"`. -/
def accessreg : MyRegex where
  bol := false
  body := Ere.cat (.group (.many1 (but ':'))) [.chr ':', .group (.many1 fun _ => true)]

/-- `AccessConf::IsAccessAllowed`: the answer, and what `*userstr` is afterwards. -/
def isAccessAllowed (users : Users) (str : Str) (acclevel : Int) (userstr : Str) : Bool × Str :=
  let line := accessreg.matchStr str
  if line.1 = 0 then (false, userstr)
  else
    let who := line.2.getD 0 []
    match users.lookup who with
    | some user => (user.password = line.2.getD 1 [] && user.level ≥ acclevel, who)
    | none => (false, who)

theorem isAccessAllowed_iff (users : Users) (str : Str) (acclevel : Int) (userstr : Str) :
    (isAccessAllowed users str acclevel userstr).1 = true ↔
      (accessreg.matchStr str).1 ≠ 0 ∧
        ∃ user, users.lookup ((accessreg.matchStr str).2.getD 0 []) = some user ∧
          user.password = (accessreg.matchStr str).2.getD 1 [] ∧ acclevel ≤ user.level := by
  by_cases h : (accessreg.matchStr str).1 = 0
  · simp [isAccessAllowed, h]
  · simp only [isAccessAllowed, if_neg h]
    cases users.lookup ((accessreg.matchStr str).2.getD 0 []) with
    | none => simp
    | some user => simp [h]

/-- The answer does not depend on where the name is written. -/
theorem isAccessAllowed_fst (users : Users) (str : Str) (acclevel : Int) (s s' : Str) :
    (isAccessAllowed users str acclevel s).1 = (isAccessAllowed users str acclevel s').1 := by
  rw [Bool.eq_iff_iff, isAccessAllowed_iff, isAccessAllowed_iff]

/-! ## The texts that are let in -/

open Ere

/-- A name and a password with the first colon between them. -/
structure Credentials (s u p : Str) : Prop where
  eq : s = u ++ ':' :: p
  name_ne : u ≠ []
  name_colon : ':' ∉ u
  password_ne : p ≠ []

namespace Credentials
variable {s u p u' p' : Str}

theorem unique (h : Credentials s u p) (h' : Credentials s u' p') : u = u' ∧ p = p' := by
  obtain ⟨rfl, hp⟩ := stops_but.unique stops_but (but_iff.mpr h.name_colon)
    (but_iff.mpr h'.name_colon) (h.eq.symm.trans h'.eq)
  exact ⟨rfl, (List.cons.inj hp).2⟩

theorem head_ne (h : Credentials (':' :: s) u p) : False := by
  obtain ⟨c, u, rfl⟩ := List.exists_cons_of_ne_nil h.name_ne
  obtain ⟨rfl, -⟩ := List.cons.inj h.eq
  exact h.name_colon List.mem_cons_self

/-- What has credentials in it, and does not begin with a colon, is credentials. -/
theorem exists_of_append {z t : Str} (h : Credentials s u p)
    (hz : ∀ c ∈ (z ++ (s ++ t)).head?, c ≠ ':') : ∃ u' p', Credentials (z ++ (s ++ t)) u' p' := by
  rw [h.eq, List.append_assoc, List.cons_append] at hz ⊢
  by_cases hcolon : ':' ∈ z
  · obtain ⟨a, b, rfl, ha⟩ := List.eq_append_cons_of_mem hcolon
    refine ⟨a, b ++ (u ++ ':' :: (p ++ t)), by simp, ?_, ha, by simp⟩
    rintro rfl
    exact hz ':' rfl rfl
  · exact ⟨z ++ u, p ++ t, by simp, by simp [h.name_ne], by simp [hcolon, h.name_colon],
      by simp [h.password_ne]⟩

end Credentials

theorem splits_accessreg {x t : Str} :
    accessreg.body.Splits x t ↔ ∃ u p, Credentials x u p := by
  simp only [accessreg, cat, chr, splits_seq, splits_group, splits_many1, splits_one, but_iff,
    beq_iff_eq]
  constructor
  · rintro ⟨u, _, rfl, ⟨hu, hcolon⟩, _, p, rfl, ⟨_, rfl, rfl⟩, hp, -⟩
    exact ⟨u, p, rfl, hu, hcolon, hp⟩
  · rintro ⟨u, p, rfl, hu, hcolon, hp⟩
    exact ⟨u, _, rfl, ⟨hu, hcolon⟩, [':'], p, rfl, ⟨_, rfl, rfl⟩, hp, fun _ _ => trivial⟩

theorem exec_of_credentials {s u p : Str} (h : Credentials s u p) :
    accessreg.exec s = some (s.length, [some u, some p]) := by
  refine Regex.exec_whole ?_
  rw [h.eq]
  refine .group_many1_seq h.name_ne (but_iff.mpr h.name_colon) stops_but ?_
  exact .one_seq rfl (.group_many1 h.password_ne fun _ _ => rfl)

theorem exec_of_not_credentials {s : Str} (hs : ∀ c ∈ s.head?, c ≠ ':')
    (h : ∀ u p, ¬ Credentials s u p) : accessreg.exec s = none := by
  refine Option.eq_none_iff_forall_ne_some.mpr fun m hm => ?_
  obtain ⟨z, x, t, rfl, hx⟩ := Regex.splits_of_exec hm
  obtain ⟨u, p, hc⟩ := splits_accessreg.mp hx
  obtain ⟨u', p', hc'⟩ := hc.exists_of_append hs
  exact h u' p' hc'

theorem exec_accessreg (str : Str) : accessreg.exec str =
    (accessreg.exec (str.dropWhile (· == ':'))).map fun m => (m.1 + span (· == ':') str, m.2) := by
  refine Regex.exec_dropWhile rfl (fun c x t hc hx => ?_) (fun t hx => ?_) str
  · obtain rfl := beq_iff_eq.mp hc
    obtain ⟨u, p, h⟩ := splits_accessreg.mp hx
    exact h.head_ne
  · obtain ⟨u, p, h⟩ := splits_accessreg.mp hx
    exact absurd h.eq (by simp)

section Match
variable {str : Str} (hnul : '\x00' ∉ str)
include hnul

theorem matchStr_of_credentials {u p : Str} (h : Credentials (str.dropWhile (· == ':')) u p) :
    ∃ n ≠ 0, accessreg.matchStr str = (n, [u, p]) := by
  refine ⟨(str.dropWhile (· == ':')).length + span (· == ':') str, ?_, ?_⟩
  · rw [h.eq]
    simp
  · rw [MyRegex.matchStr, cStr_eq_self hnul, exec_accessreg, exec_of_credentials h]
    rfl

theorem matchStr_of_not_credentials
    (h : ∀ u p, ¬ Credentials (str.dropWhile (· == ':')) u p) :
    accessreg.matchStr str = (0, []) := by
  have hhead : ∀ c ∈ (str.dropWhile (· == ':')).head?, c ≠ ':' := by
    intro c hc
    have hnot := List.head?_dropWhile_not (· == ':') str
    rw [Option.mem_def.mp hc] at hnot
    simpa using hnot
  rw [MyRegex.matchStr, cStr_eq_self hnul, exec_accessreg, exec_of_not_credentials hhead h]
  rfl

/-- **A user is let in exactly with the right password and level**, and the name is stored exactly
if the text is a name and a password. -/
theorem allowed_iff (users : Users) (acclevel : Int) (userstr : Str) :
    ((isAccessAllowed users str acclevel userstr).1 = true ↔
      ∃ u p, Credentials (str.dropWhile (· == ':')) u p ∧
        ∃ user, users.lookup u = some user ∧ user.password = p ∧ acclevel ≤ user.level) ∧
    (∀ u p, Credentials (str.dropWhile (· == ':')) u p →
      (isAccessAllowed users str acclevel userstr).2 = u) ∧
    ((∀ u p, ¬ Credentials (str.dropWhile (· == ':')) u p) →
      (isAccessAllowed users str acclevel userstr).2 = userstr) := by
  by_cases h : ∃ u p, Credentials (str.dropWhile (· == ':')) u p
  · obtain ⟨u, p, hc⟩ := h
    obtain ⟨n, hn, hmatch⟩ := matchStr_of_credentials hnul hc
    refine ⟨?_, fun u' p' hc' => ?_, fun hnot => absurd hc (hnot u p)⟩
    · rw [isAccessAllowed_iff, hmatch]
      constructor
      · rintro ⟨-, user, hlookup, hpassword, hlevel⟩
        exact ⟨u, p, hc, user, hlookup, hpassword, hlevel⟩
      · rintro ⟨u', p', hc', user, hlookup, hpassword, hlevel⟩
        obtain ⟨rfl, rfl⟩ := hc.unique hc'
        exact ⟨hn, user, hlookup, hpassword, hlevel⟩
    · obtain ⟨rfl, rfl⟩ := hc.unique hc'
      unfold isAccessAllowed
      rw [hmatch]
      dsimp only
      rw [if_neg hn]
      split <;> rfl
  · have hmatch := matchStr_of_not_credentials hnul fun u p hc => h ⟨u, p, hc⟩
    refine ⟨?_, fun u p hc => absurd ⟨u, p, hc⟩ h, fun _ => ?_⟩
    · rw [isAccessAllowed_iff, hmatch]
      exact iff_of_false (fun hm => hm.1 rfl) fun ⟨u, p, hc, _⟩ => h ⟨u, p, hc⟩
    · unfold isAccessAllowed
      rw [hmatch]
      rfl

end Match

/-- A password with a colon in it. -/
theorem allowed_colon : (isAccessAllowed
    ((∅ : Users).insert "a".toList ⟨100, "b:c".toList⟩) ":a:b:c".toList 100 []).1 = true :=
  (allowed_iff (by decide) _ _ _).1.mpr
    ⟨"a".toList, "b:c".toList, ⟨rfl, by decide, by decide, by decide⟩, _, rfl, rfl, by decide⟩

end NetDJ.Daemon
