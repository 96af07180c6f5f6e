import NetDJ.Daemon.AccessConf
import NetDJ.Daemon.Configuration
import NetDJ.Daemon.HTTPResponse

/-!
# `AccessConf.cc`: the users file

`ReadFile` goes through the file with `while (conf.getline(..))`, which ends at the first line that
does not fit the buffer as it does at the end of the file.

* `AccessConf.ReadFile` : the call;
* `UserLine`, `userOf` : the lines that name a user, and the user;
* `AccessConf.readLine_eq` : what a line does to the users;
* `users_read_iff` : when the users are those of the file.
-/

namespace NetDJ.Daemon

open Ere Loop IStream

def CONF_USERFILENAME : Str := "users".toList

/-- `"^([^:]+):([[:digit:]]+):(.+)$"`. -/
def userreg : MyRegex where
  bol := true
  body := cat (group (many1 (but ':')))
    [chr ':', group (many1 Char.isDigit), chr ':', group (many1 fun _ => true), eol]

namespace AccessConf

/-- The stream on the users file. If no file opens it has failed before anything is read. -/
def openUsers (conf : Configuration) (env : ConfEnv) : IStream :=
  match env.content (conf.getString "$$CONFDIR".toList ++ CONF_USERFILENAME) with
  | some content => ofText content
  | none =>
    match env.content (env.NETDJ_ETCDIR ++ '/' :: CONF_USERFILENAME) with
    | some content => ofText content
    | none => ⟨[], false, true⟩

/-- What the body of the loop does with a line. -/
def readLine (users : Users) (line : Str) : Except Abort Users :=
  let splitline := userreg.matchStr line
  if line.head? ≠ some '#' ∧ splitline.1 ≠ 0 then
    (atoi (splitline.2.getD 1 [])).map fun level =>
      users.insert (splitline.2.getD 0 []) ⟨level, splitline.2.getD 2 []⟩
  else .ok users

/-- `ReadFile` comes to an end, with the users or with undefined behaviour. -/
def ReadFile (conf : Configuration) (env : ConfEnv) (r : Except Abort Users) : Prop :=
  ∃ s, Ends (round (whileGetline Abort LINESIZE) readLine) (openUsers conf env, ∅) s ∧
    r = s.map fun s => s.2

end AccessConf

/-! ## The lines that name a user -/

/-- `name:digits:password`. -/
structure UserLine (line name digits password : Str) : Prop where
  eq : line = name ++ ':' :: (digits ++ ':' :: password)
  name_ne : name ≠ []
  name_colon : ':' ∉ name
  digits_ne : digits ≠ []
  digits_all : ∀ c ∈ digits, c.isDigit = true
  password_ne : password ≠ []

def splitUser (line : Str) : Option (Str × Str × Str) :=
  let name := line.takeWhile (· ≠ ':')
  let digits := (line.drop (name.length + 1)).takeWhile Char.isDigit
  let password := line.drop (name.length + 1 + digits.length + 1)
  if name ≠ [] ∧ digits ≠ [] ∧ password ≠ [] ∧ line = name ++ ':' :: (digits ++ ':' :: password) then
    some (name, digits, password)
  else none

theorem splitUser_eq_some {line name digits password : Str} :
    splitUser line = some (name, digits, password) ↔ UserLine line name digits password := by
  constructor
  · intro h
    unfold splitUser at h
    dsimp only at h
    split at h
    · next hs =>
      obtain ⟨hn, hd, hp, he⟩ := hs
      cases h
      refine ⟨he, hn, fun hc => ?_, hd, fun _ hc => List.mem_takeWhile_imp hc, hp⟩
      simpa using List.mem_takeWhile_imp hc
    · cases h
  · intro h
    have hname : line.takeWhile (· ≠ ':') = name := by
      rw [h.eq, List.takeWhile_append_of_pos fun c hc =>
        decide_eq_true (ne_of_mem_of_not_mem hc h.name_colon)]
      simp
    have hrest : line.drop (name.length + 1) = digits ++ ':' :: password := by
      rw [h.eq, ← List.drop_drop, List.drop_left]
      rfl
    have hdigits : (digits ++ ':' :: password).takeWhile Char.isDigit = digits := by
      rw [List.takeWhile_append_of_pos h.digits_all]
      simp
    have hpassword : line.drop (name.length + 1 + digits.length + 1) = password := by
      rw [Nat.add_assoc, ← List.drop_drop, hrest, ← List.drop_drop, List.drop_left]
      rfl
    unfold splitUser
    dsimp only
    rw [hname, hrest, hdigits, hpassword,
      if_pos ⟨h.name_ne, h.digits_ne, h.password_ne, h.eq⟩]

theorem splits_userreg {x t : Str} : userreg.body.Splits x t ↔
    t = [] ∧ ∃ name digits password, UserLine x name digits password := by
  simp only [userreg, cat, chr, splits_seq, splits_group, splits_many1, splits_one, splits_eol,
    but_iff, beq_iff_eq]
  constructor
  · rintro ⟨n, _, rfl, ⟨hn, hcolon⟩, _, _, rfl, ⟨_, rfl, rfl⟩, d, _, rfl, ⟨hd, hdigits⟩, _, _, rfl,
      ⟨_, rfl, rfl⟩, p, _, rfl, ⟨hp, -⟩, rfl, rfl⟩
    exact ⟨rfl, n, d, p, by simp, hn, hcolon, hd, hdigits, hp⟩
  · rintro ⟨rfl, n, d, p, rfl, hn, hcolon, hd, hdigits, hp⟩
    exact ⟨n, _, rfl, ⟨hn, hcolon⟩, [':'], _, rfl, ⟨_, rfl, rfl⟩, d, _, rfl, ⟨hd, hdigits⟩, [':'],
      _, rfl, ⟨_, rfl, rfl⟩, p, [], (List.append_nil p).symm, ⟨hp, fun _ _ => trivial⟩, rfl, rfl⟩

theorem reads_userreg {line name digits password : Str} (h : UserLine line name digits password) :
    userreg.body.Reads line [] [some name, some digits, some password] := by
  rw [h.eq]
  refine .group_many1_seq h.name_ne (but_iff.mpr h.name_colon) stops_but (.one_seq rfl ?_)
  refine .group_many1_seq h.digits_ne h.digits_all (stops_cons.mpr rfl) (.one_seq rfl ?_)
  have hend := Reads.seq (r := group (many1 fun _ => true)) (y := password) (z := [])
    (.group_many1 h.password_ne fun _ _ => rfl) (.of_splits (splits_eol.mpr ⟨rfl, rfl⟩) rfl)
    fun y' z' he _ _ => by
      rw [List.append_nil] at he
      rw [← he, List.length_append]
      exact Nat.le_add_right _ _
  rwa [List.append_nil] at hend

theorem matchStr_userreg {line : Str} (hnul : '\x00' ∉ line) : userreg.matchStr line =
    match splitUser line with
    | some (name, digits, password) => (line.length, [name, digits, password])
    | none => (0, []) := by
  rw [MyRegex.matchStr, cStr_eq_self hnul]
  cases hsplit : splitUser line with
  | some e =>
    obtain ⟨name, digits, password⟩ := e
    rw [Regex.exec_whole (reads_userreg (splitUser_eq_some.mp hsplit))]
    rfl
  | none =>
    have hexec : userreg.exec line = none := by
      refine (Regex.exec_eq_none rfl).mpr fun x t he hx => ?_
      obtain ⟨rfl, name, digits, password, h⟩ := splits_userreg.mp hx
      rw [List.append_nil] at he
      rw [he, splitUser_eq_some.mpr h] at hsplit
      cases hsplit
    rw [hexec]

/-- The level of a line is no `int`. -/
def tooHigh (line : Str) : Bool :=
  line.head? ≠ some '#' && (splitUser line).any fun e => 2 ^ 31 ≤ Nat.ofDigitChars 10 e.2.1 0

/-- The user of a line, for a level that is an `int`. -/
def userOf (line : Str) : Option (Str × User) :=
  if line.head? = some '#' then none
  else (splitUser line).bind fun e =>
    let level := Nat.ofDigitChars 10 e.2.1 0
    if level < 2 ^ 31 then some (e.1, ⟨level, e.2.2⟩) else none

theorem AccessConf.readLine_eq {line : Str} (hnul : '\x00' ∉ line) (users : Users) :
    AccessConf.readLine users line =
      if tooHigh line then .error .undefined else .ok (StdMap.put users (userOf line)) := by
  unfold AccessConf.readLine
  rw [matchStr_userreg hnul]
  by_cases hhead : line.head? = some '#'
  · rw [if_neg fun h => h.1 hhead, tooHigh, userOf, if_pos hhead, decide_eq_false (not_not.mpr hhead)]
    rfl
  cases hsplit : splitUser line with
  | none =>
    rw [tooHigh, userOf, hsplit, if_neg hhead, Option.any_none, Bool.and_false]
    exact if_neg fun h => h.2 rfl
  | some e =>
    obtain ⟨name, digits, password⟩ := e
    have hlen : line.length ≠ 0 := by
      rw [(splitUser_eq_some.mp hsplit).eq]
      simp
    have hhigh : tooHigh line = decide (2 ^ 31 ≤ Nat.ofDigitChars 10 digits 0) := by
      rw [tooHigh, hsplit, decide_eq_true hhead]
      rfl
    have huser : userOf line = if Nat.ofDigitChars 10 digits 0 < 2 ^ 31 then
        some (name, ⟨Nat.ofDigitChars 10 digits 0, password⟩) else none := by
      rw [userOf, if_neg hhead, hsplit]
      rfl
    rw [hhigh, huser]
    dsimp only
    rw [if_pos ⟨hhead, hlen⟩]
    show (atoi digits).map _ = _
    unfold atoi
    by_cases hlevel : Nat.ofDigitChars 10 digits 0 < 2 ^ 31
    · rw [decide_eq_false (Nat.not_le.mpr hlevel), if_pos hlevel, if_pos hlevel]
      rfl
    · rw [decide_eq_true (Nat.not_lt.mp hlevel), if_neg hlevel]
      rfl

/-! ## The whole file -/

/-- The user in the last line for a name. -/
def lastUser (ls : List Str) (name : Str) : Option User := lastEntry userOf ls name

theorem readFile_ok_iff (conf : Configuration) (env : ConfEnv) {content : Str}
    (hopen : AccessConf.openUsers conf env = ofText content) (hnul : '\x00' ∉ content)
    (users : Users) : AccessConf.ReadFile conf env (.ok users) ↔
      (∀ line ∈ (lines content).takeWhile (FitsIn LINESIZE), tooHigh line = false) ∧
        ((lines content).takeWhile (FitsIn LINESIZE)).foldl
          (fun users line => StdMap.put users (userOf line)) ∅ = users := by
  obtain ⟨j, hpulls⟩ := pulls_whileGetline (ε := Abort) (by decide : 0 < LINESIZE) content
  have hclean : ∀ line ∈ (lines content).takeWhile (FitsIn LINESIZE), '\x00' ∉ line :=
    fun line hline hc => hnul
      ((notMem_of_mem_lines ((List.takeWhile_sublist _).subset hline)).2 hc)
  simp only [← Bool.not_eq_true]
  rw [← foldlM_eq_ok_iff (f := AccessConf.readLine) (ε := Abort)
    (fun users line hline h => by rw [AccessConf.readLine_eq (hclean line hline), if_neg h])
    (fun users line hline h => ⟨_, by rw [AccessConf.readLine_eq (hclean line hline), if_pos h]⟩)]
  simp only [AccessConf.ReadFile, hopen, ends_round_iff hpulls, exists_eq_left]
  rw [eq_comm, map_eq_ok]
  constructor
  · rintro ⟨s, hs, rfl⟩
    obtain ⟨users, hfold, rfl⟩ := map_eq_ok.mp hs
    exact hfold
  · intro hfold
    exact ⟨(j, users), by rw [hfold]; rfl, rfl⟩

/-- **The users are those of the file** exactly if no level in front of the first line that does not
fit is too high for an `int`, and the lines from that one on say nothing new. -/
theorem users_read_iff (conf : Configuration) (env : ConfEnv) {content : Str}
    (hopen : AccessConf.openUsers conf env = ofText content) (hnul : '\x00' ∉ content) :
    (∃ users, AccessConf.ReadFile conf env (.ok users) ∧
      ∀ name, users.lookup name = lastUser (lines content) name) ↔
    (∀ line ∈ (lines content).takeWhile (FitsIn LINESIZE), tooHigh line = false) ∧
      ∀ name user, lastUser ((lines content).dropWhile (FitsIn LINESIZE)) name = some user →
        lastUser ((lines content).takeWhile (FitsIn LINESIZE)) name = some user := by
  have hlast : ∀ name, lastUser (lines content) name =
      (lastUser ((lines content).dropWhile (FitsIn LINESIZE)) name).or
        (lastUser ((lines content).takeWhile (FitsIn LINESIZE)) name) := by
    intro name
    rw [lastUser, ← List.takeWhile_append_dropWhile (p := FitsIn LINESIZE) (l := lines content),
      lastEntry_append, List.takeWhile_append_dropWhile]
    rfl
  have hlookup : ∀ name, (((lines content).takeWhile (FitsIn LINESIZE)).foldl
      (fun users line => StdMap.put users (userOf line)) (∅ : Users)).lookup name =
        lastUser ((lines content).takeWhile (FitsIn LINESIZE)) name := by
    intro name
    rw [lookup_foldl_put, AList.lookup_empty, Option.or_none]
    rfl
  constructor
  · rintro ⟨users, hread, hfile⟩
    obtain ⟨hlow, rfl⟩ := (readFile_ok_iff conf env hopen hnul users).mp hread
    refine ⟨hlow, fun name user h => ?_⟩
    rw [← hlookup, hfile, hlast, h]
    rfl
  · rintro ⟨hlow, hrest⟩
    refine ⟨_, (readFile_ok_iff conf env hopen hnul _).mpr ⟨hlow, rfl⟩, fun name => ?_⟩
    rw [hlookup, hlast]
    cases h : lastUser ((lines content).dropWhile (FitsIn LINESIZE)) name with
    | none => rfl
    | some user => exact hrest name user h

def homeConfiguration : Configuration :=
  ⟨(∅ : StdMap Str Str).insert "$$CONFDIR".toList "/root/.netdj/".toList⟩

def homeUsers (content : Str) : ConfEnv where
  HOME := some "/root".toList
  NETDJ_ETCDIR := "/etc".toList
  content := fun name => if name = "/root/.netdj/users".toList then some content else none

/-- A comment, and two lines for one name. -/
theorem users_read_two : ∃ users,
    AccessConf.ReadFile homeConfiguration (homeUsers "#c\na:1:p\na:2:q\n".toList) (.ok users) ∧
      users.lookup "a".toList = some ⟨2, "q".toList⟩ ∧ users.lookup "c".toList = none := by
  obtain ⟨users, hread, hlookup⟩ := (users_read_iff homeConfiguration (homeUsers _)
    (show AccessConf.openUsers homeConfiguration _ = ofText "#c\na:1:p\na:2:q\n".toList from rfl)
    (by decide)).mpr ⟨by decide, fun name user h => by
      have hnil : (lines "#c\na:1:p\na:2:q\n".toList).dropWhile (FitsIn LINESIZE) = [] := by decide
      rw [hnil] at h
      cases h⟩
  exact ⟨users, hread, by rw [hlookup]; decide, by rw [hlookup]; decide⟩

/-- A comment that is one character too long, and a user. -/
def longComment : Str := List.replicate LINESIZE '#' ++ '\n' :: "a:1:p\n".toList

theorem user_lost : ¬ ∃ users,
    AccessConf.ReadFile homeConfiguration (homeUsers longComment) (.ok users) ∧
      ∀ name, users.lookup name = lastUser (lines longComment) name := by
  have hline : '\n' ∉ List.replicate LINESIZE '#' := by
    rw [List.mem_replicate]
    exact fun h => absurd h.2 (by decide)
  have hlines : lines longComment = [List.replicate LINESIZE '#', "a:1:p".toList] := by
    rw [longComment, lines_line hline]
    rfl
  have hnone : (lines longComment).takeWhile (FitsIn LINESIZE) = [] := by
    rw [hlines, List.takeWhile_cons_of_neg]
    rw [fits_iff, List.length_replicate]
    exact lt_irrefl _
  rintro ⟨users, hread, hlookup⟩
  have hnul : '\x00' ∉ longComment := by
    simp [longComment]
  obtain ⟨-, rfl⟩ := (readFile_ok_iff homeConfiguration (homeUsers longComment) rfl hnul users).mp
    hread
  have hlast : lastUser (lines longComment) "a".toList = some ⟨1, "p".toList⟩ := by
    rw [hlines, lastUser, ← List.singleton_append, lastEntry_append]
    decide
  have ha := hlookup "a".toList
  rw [hnone, hlast] at ha
  cases ha

end NetDJ.Daemon
