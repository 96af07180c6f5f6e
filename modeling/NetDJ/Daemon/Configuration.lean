import NetDJ.Lib.IStream
import NetDJ.Daemon.Directory
import NetDJ.Daemon.RequestText

/-!
# `Configuration.cc`: the settings

`ReadFile` goes through the file with `while (!conf.eof())`. A line that does not fit the buffer sets
`failbit` and not `eofbit`, so that nothing is read from then on.

* `readRound`, `ReadFile` : a round of the loop, and the whole call, which may not return;
* `read_ends_iff` : the loop ends exactly if all lines fit;
* `Setting`, `ConfLine` : the lines of a file;
* `Misread`, `Kept` : the expression takes as much as it can for the name, so that a further `=` of
  the value may become the one that splits the line;
* `settingOf_text` : what a line stores;
* `settings_read_iff` : when the settings are those of the file.
-/

namespace NetDJ.Daemon

open Ere Loop IStream

/-- `CONF`: the default values. -/
def CONF : List (Str × Str) :=
  [("HTTP_PORT".toList, "7676".toList),
    ("CACHE_DIR".toList, "/usr/share/mp3/cache".toList),
    ("SHARE_DIR".toList, "/usr/share/mp3/share".toList),
    ("REQUEST_DIR".toList, "/usr/share/mp3/request".toList),
    ("WEB_LOCKED".toList, "false".toList),
    ("HTTP_START".toList, "false".toList),
    ("HTTP_REDIRECT".toList, []),
    ("PLAYER_START".toList, "true".toList),
    ("PLAYER_LOG".toList, "false".toList),
    ("DELETE_PLAYED".toList, "false".toList),
    ("STREAM_IP".toList, "127.0.0.1".toList),
    ("STREAM_PORT".toList, "8000".toList),
    ("STREAM_MOUNT".toList, "netdj".toList),
    ("STREAM_PASSWD".toList, []),
    ("DAEMON_MODE".toList, "false".toList),
    ("DAEMON_CHANGEUSER".toList, "false".toList),
    ("DAEMON_UID".toList, []),
    ("DAEMON_GID".toList, [])]

def CONF_DIRNAME : Str := ".netdj/".toList

def CONF_FILENAME : Str := "config".toList

/-- `sizeof(line)`. -/
def LINESIZE : Nat := 255

structure Configuration where
  conflist : StdMap Str Str

/-- What `ReadFile` finds outside: `getenv("HOME")`, the directory of the installation, and the
content of the files that open. -/
structure ConfEnv where
  HOME : Option Str
  NETDJ_ETCDIR : Str
  content : Str → Option Str

/-- `"([^ ]+) *= *([^ ]+)"`. -/
def confreg : MyRegex where
  bol := false
  body := cat (group (many1 (but ' '))) [spaces, chr '=', spaces, group (many1 (but ' '))]

namespace Configuration

/-- The directory in the home directory, with a slash at its end. -/
def dotpath (HOME : Option Str) : Except Abort Str :=
  match HOME with
  | none => .ok (Directory.slashed CONF_DIRNAME)
  | some [] => .error .undefined -- `dotpath[dotpath.size() - 1]`
  | some home => .ok (Directory.slashed (Directory.slashed home ++ CONF_DIRNAME))

/-- The configuration file that opens: its name and its content. -/
def openConf (env : ConfEnv) (dotpath : Str) : Option (Str × Str) :=
  let fullname := dotpath ++ CONF_FILENAME
  match env.content fullname with
  | some content => some (fullname, content)
  | none =>
    let fullname := env.NETDJ_ETCDIR ++ '/' :: CONF_FILENAME
    (env.content fullname).map fun content => (fullname, content)

def defaults (c : Configuration) : StdMap Str Str :=
  CONF.foldl (fun m e => m.insert e.1 e.2) c.conflist

def readLine (conflist : StdMap Str Str) (line : Str) : StdMap Str Str :=
  let splitline := confreg.matchStr line
  if line.head? ≠ some '#' ∧ splitline.1 ≠ 0 then
    conflist.insert (splitline.2.getD 0 []) (splitline.2.getD 1 [])
  else conflist

def readRound : IStream × StdMap Str Str → Except Abort (Option (IStream × StdMap Str Str)) :=
  round (untilEof Abort LINESIZE) fun conflist line => .ok (readLine conflist line)

def ReadFile (env : ConfEnv) (c : Configuration) (r : Except Abort Configuration) : Prop :=
  match dotpath env.HOME with
  | .error a => r = .error a
  | .ok dotpath =>
    match openConf env dotpath with
    | none => r = .error (.exit 100)
    | some (fullname, content) =>
      ∃ s, Ends readRound (ofText content, c.defaults) s ∧ r = s.map fun s =>
        ⟨(s.2.insert "$$CONFDIR".toList dotpath).insert "$$CONFFILE".toList fullname⟩

def getString (c : Configuration) (str : Str) : Str := (c.conflist.lookup str).getD []

/-! ## The loop -/

/-- **The loop ends exactly if every line fits the buffer.** -/
theorem read_ends_iff (content : Str) (conflist : StdMap Str Str) :
    (∃ r, Ends readRound (ofText content, conflist) r) ↔
      ∀ line ∈ lines content, line.length < LINESIZE := by
  constructor
  · rintro ⟨r, hr⟩ line hline
    by_contra hlen
    exact not_ends_of_long (fun m l => ⟨readLine m l, rfl⟩) ⟨line, hline, Nat.not_lt.mp hlen⟩
      conflist r hr
  · intro hfit
    obtain ⟨j, extra, -, hpulls⟩ := pulls_untilEof (ε := Abort) (by decide) hfit
    exact ⟨_, ends_round hpulls _ conflist⟩

/-- A line that is one character too long. -/
theorem read_hangs : ¬ ∃ r, Ends readRound
    (ofText (List.replicate LINESIZE 'a'), defaults ⟨∅⟩) r := by
  have hline : '\n' ∉ List.replicate LINESIZE 'a' := by
    rw [List.mem_replicate]
    exact fun h => absurd h.2 (by decide)
  have hlines : lines (List.replicate LINESIZE 'a') = [List.replicate LINESIZE 'a'] := by
    rw [lines_last hline, if_neg (by decide)]
  rintro ⟨r, hr⟩
  refine not_ends_of_long (fun m l => ⟨readLine m l, rfl⟩) ⟨List.replicate LINESIZE 'a', ?_, ?_⟩
    _ r hr
  · rw [hlines]
    exact List.mem_singleton_self _
  · rw [List.length_replicate]

end Configuration

/-! ## The lines of a file -/

/-- `NAME = VALUE`, with `gap₁` spaces in front of the first `=` and `gap₂` behind it. -/
structure Setting where
  NAME : Str
  gap₁ : Nat
  gap₂ : Nat
  VALUE : Str
  name_ne : NAME ≠ []
  name_space : ' ' ∉ NAME
  name_eq : '=' ∉ NAME
  name_comment : NAME.head? ≠ some '#'
  /-- The names that `ReadFile` sets itself. -/
  name_own : ¬ "$$".toList <+: NAME
  value_ne : VALUE ≠ []
  value_space : ' ' ∉ VALUE

def settingText (NAME : Str) (gap₁ gap₂ : Nat) (VALUE : Str) : Str :=
  NAME ++ (List.replicate gap₁ ' ' ++ '=' :: (List.replicate gap₂ ' ' ++ VALUE))

def Setting.text (s : Setting) : Str := settingText s.NAME s.gap₁ s.gap₂ s.VALUE

inductive ConfLine where
  | comment (rest : Str)
  | setting (s : Setting)

def ConfLine.text : ConfLine → Str
  | comment rest => '#' :: rest
  | setting s => s.text

/-- The value has a further `=` at which the expression splits the line: there is no space in front
of the first `=`, the further one has something behind it, and it is the first character of the
value or there is no space behind the first `=` either. -/
def Misread (gap₁ gap₂ : Nat) (VALUE : Str) : Prop :=
  gap₁ = 0 ∧ (VALUE.dropLast.head? = some '=' ∨ gap₂ = 0 ∧ '=' ∈ VALUE.dropLast)

instance (gap₁ gap₂ : Nat) (VALUE : Str) : Decidable (Misread gap₁ gap₂ VALUE) :=
  inferInstanceAs (Decidable (_ ∧ _))

/-- A setting whose text up to the first NUL is split at the first `=`. -/
def Setting.Kept (s : Setting) : Prop :=
  '\x00' ∉ s.NAME ∧ cStr s.VALUE ≠ [] ∧ ¬ Misread s.gap₁ s.gap₂ (cStr s.VALUE)

instance (s : Setting) : Decidable s.Kept := inferInstanceAs (Decidable (_ ∧ _ ∧ _))

/-! ## The split -/

section Split
variable {NAME VALUE x t : Str} {gap₁ gap₂ : Nat}

/-- `" *= *([^ ]+)"`, what `confreg` has behind the name. -/
def settingreg : Ere Char := cat spaces [chr '=', spaces, group (many1 (but ' '))]

theorem splits_word : (many1 (but ' ')).Splits x t ↔ x ≠ [] ∧ ' ' ∉ x := by
  rw [splits_many1, but_iff]

theorem splits_assign : settingreg.Splits x t ↔ ∃ g₁ g₂ v, v ≠ [] ∧ ' ' ∉ v ∧
    x = List.replicate g₁ ' ' ++ '=' :: (List.replicate g₂ ' ' ++ v) := by
  simp only [settingreg, cat, spaces, chr, splits_seq, splits_many, splits_one, splits_group,
    splits_many1, but_iff, beq_iff_eq]
  constructor
  · rintro ⟨s₁, _, rfl, h₁, _, _, rfl, ⟨_, rfl, rfl⟩, s₂, v, rfl, h₂, hne, hv⟩
    refine ⟨s₁.length, s₂.length, v, hne, hv, ?_⟩
    rw [← List.eq_replicate_of_mem h₁, ← List.eq_replicate_of_mem h₂]
    rfl
  · rintro ⟨g₁, g₂, v, hne, hv, rfl⟩
    exact ⟨_, _, rfl, by simp, ['='], _, rfl, ⟨_, rfl, rfl⟩, _, v, rfl, by simp, hne, hv⟩

theorem splits_confreg : confreg.body.Splits x t ↔
    ∃ k z, x = k ++ z ∧ (k ≠ [] ∧ ' ' ∉ k) ∧ settingreg.Splits z t := by
  show (seq (group (many1 (but ' '))) settingreg).Splits x t ↔ _
  simp only [splits_seq, splits_group, splits_word]

theorem misread_iff : Misread gap₁ gap₂ VALUE ↔
    gap₁ = 0 ∧ ∃ a b, VALUE = a ++ '=' :: b ∧ b ≠ [] ∧ (gap₂ = 0 ∨ a = []) := by
  refine and_congr_right fun _ => ?_
  constructor
  · rintro (h | ⟨hgap, h⟩)
    · cases VALUE with
      | nil => cases h
      | cons c b =>
        cases b with
        | nil => cases h
        | cons d b =>
          obtain rfl : c = '=' := Option.some.inj h
          exact ⟨[], d :: b, rfl, List.cons_ne_nil d b, .inr rfl⟩
    · obtain ⟨a, b, hb, he⟩ := exists_of_mem_dropLast h
      exact ⟨a, b, he, hb, .inl hgap⟩
  · rintro ⟨a, b, rfl, hb, h⟩
    rw [List.dropLast_append_of_ne_nil (List.cons_ne_nil '=' b), List.dropLast_cons_of_ne_nil hb]
    rcases h with hgap | rfl
    · exact .inr ⟨hgap, by simp⟩
    · exact .inl rfl

theorem stops_word (hne : x ≠ []) (hx : ' ' ∉ x) : Stops (· == ' ') x := by
  simpa using stops_space hne hx (t := [])

theorem exec_confreg_eq_none {s : Str} (h : ∀ a b, s = a ++ '=' :: b → ∀ c ∈ b, c = ' ') :
    confreg.exec s = none := by
  refine Option.eq_none_iff_forall_ne_some.mpr fun m hm => ?_
  obtain ⟨z, x, t, rfl, hx⟩ := Regex.splits_of_exec hm
  obtain ⟨k, z', rfl, -, hz⟩ := splits_confreg.mp hx
  obtain ⟨g₁, g₂, v, hv, hspace, rfl⟩ := splits_assign.mp hz
  obtain ⟨c, v, rfl⟩ := List.exists_cons_of_ne_nil hv
  have hc := h (z ++ (k ++ List.replicate g₁ ' ')) (List.replicate g₂ ' ' ++ (c :: v) ++ t)
    (by simp) c (by simp)
  exact hspace (hc ▸ List.mem_cons_self)

end Split

namespace Setting
variable (s : Setting) {k z : Str}

theorem splits : confreg.body.Splits s.text [] :=
  splits_confreg.mpr ⟨s.NAME, _, rfl, ⟨s.name_ne, s.name_space⟩,
    splits_assign.mpr ⟨s.gap₁, s.gap₂, s.VALUE, s.value_ne, s.value_space, rfl⟩⟩

/-- Where else than at the first `=` the line can be split. -/
theorem name_cases (he : s.text = k ++ z) (hk : ' ' ∉ k) (hz : settingreg.Splits z [])
    (hle : s.NAME.length ≤ k.length) :
    k = s.NAME ∨ Misread s.gap₁ s.gap₂ s.VALUE ∧ '=' ∈ k := by
  obtain ⟨g₁, g₂, v, hv, -, rfl⟩ := splits_assign.mp hz
  obtain ⟨u, rfl⟩ : s.NAME <+: k :=
    List.prefix_of_prefix_length_le ⟨_, rfl⟩ (he ▸ List.prefix_append k _) hle
  cases u with
  | nil => exact .inl (List.append_nil _)
  | cons c u =>
    rw [text, settingText, List.append_assoc, List.append_cancel_left_eq] at he
    rw [List.mem_append, List.mem_cons, not_or, not_or] at hk
    cases hg₁ : s.gap₁ with
    | succ n =>
      rw [hg₁, List.replicate_succ] at he
      exact absurd (List.cons.inj he).1 hk.2.1
    | zero =>
      rw [hg₁] at he
      obtain ⟨hc, hrest⟩ := List.cons.inj he
      subst hc
      refine .inr ⟨misread_iff.mpr ⟨rfl, ?_⟩, by simp⟩
      cases hg₂ : s.gap₂ with
      | zero =>
        rw [hg₂] at hrest
        exact ⟨u ++ List.replicate g₁ ' ', List.replicate g₂ ' ' ++ v,
          hrest.trans (List.append_assoc _ _ _).symm, by simp [hv], .inl rfl⟩
      | succ n =>
        cases u with
        | cons d u =>
          rw [hg₂, List.replicate_succ] at hrest
          exact absurd (List.mem_cons.mpr (.inl (List.cons.inj hrest).1)) hk.2.2
        | nil =>
          obtain ⟨-, hvalue⟩ := (stops_word s.value_ne s.value_space).unique (stops_cons.mpr rfl)
            (isSpace_replicate _) (isSpace_replicate _) hrest
          exact ⟨[], _, hvalue, by simp [hv], .inr rfl⟩

theorem exists_longer (h : Misread s.gap₁ s.gap₂ s.VALUE) : ∃ y z', s.text = y ++ z' ∧
    (y ≠ [] ∧ ' ' ∉ y) ∧ settingreg.Splits z' [] ∧ s.NAME.length < y.length := by
  obtain ⟨hg₁, a, b, hvalue, hb, hor⟩ := misread_iff.mp h
  have hspace := s.value_space
  rw [hvalue, List.mem_append, List.mem_cons, not_or, not_or] at hspace
  have hname : ∀ u : Str, ' ' ∉ u → s.NAME ++ '=' :: u ≠ [] ∧ ' ' ∉ s.NAME ++ '=' :: u :=
    fun u hu => ⟨by simp, by simp [s.name_space, hu]⟩
  have htext : s.text = s.NAME ++ '=' :: (List.replicate s.gap₂ ' ' ++ (a ++ '=' :: b)) := by
    rw [text, settingText, hg₁, ← hvalue]
    rfl
  rcases hor with hg₂ | rfl
  · refine ⟨s.NAME ++ '=' :: a, '=' :: b, ?_, hname a hspace.1, ?_, by simp⟩
    · rw [htext, hg₂]
      simp
    · exact splits_assign.mpr ⟨0, 0, b, hb, hspace.2.2, rfl⟩
  · refine ⟨s.NAME ++ ['='], List.replicate s.gap₂ ' ' ++ '=' :: b, ?_, hname [] hspace.1, ?_,
      by simp⟩
    · rw [htext]
      simp
    · exact splits_assign.mpr ⟨s.gap₂, 0, b, hb, hspace.2.2, rfl⟩

/-- The line is split at the first `=`, or the name has an `=` in it. -/
theorem exec_text : ∃ k v, confreg.exec s.text = some (s.text.length, [some k, some v]) ∧
    (¬ Misread s.gap₁ s.gap₂ s.VALUE → k = s.NAME ∧ v = s.VALUE) ∧
    (Misread s.gap₁ s.gap₂ s.VALUE → '=' ∈ k) := by
  have hreads : confreg.body.Reads s.text [] (confreg.body.groups s.text s.text.length) :=
    ⟨s.splits, by rw [List.append_nil]⟩
  rw [Regex.exec_whole hreads]
  obtain ⟨k, z, gs, he, hk, hz, hgs, longest⟩ := hreads.group_seq_inv rfl
  have hle : s.NAME.length ≤ k.length := longest _ _ rfl (splits_word.mpr ⟨s.name_ne, s.name_space⟩)
    (splits_assign.mpr ⟨s.gap₁, s.gap₂, s.VALUE, s.value_ne, s.value_space, rfl⟩)
  have hcases := s.name_cases he (splits_word.mp hk).2 hz.splits hle
  obtain ⟨s₁, z₁, rfl, h₁, hz₁⟩ := hz.leaf_seq_inv rfl
  obtain ⟨c, z₂, rfl, hc, hz₂⟩ := hz₁.one_seq_inv
  obtain ⟨s₂, v, rfl, h₂, hv⟩ := hz₂.leaf_seq_inv rfl
  obtain rfl := hv.group_inv rfl
  obtain ⟨hvne, hvspace⟩ := splits_word.mp (splits_group.mp hv.splits)
  refine ⟨k, v, by rw [hgs], fun hmis => ?_, fun hmis => ?_⟩
  · obtain rfl : k = s.NAME := hcases.resolve_right fun h => hmis h.1
    obtain rfl := beq_iff_eq.mp hc
    have hrest := List.append_cancel_left he
    obtain ⟨-, hrest⟩ := (stops_cons.mpr rfl : Stops (· == ' ') ('=' :: _)).unique
      (stops_cons.mpr rfl) (isSpace_replicate _) (splits_many.mp h₁) hrest
    obtain ⟨-, hrest⟩ := (stops_word s.value_ne s.value_space).unique (stops_word hvne hvspace)
      (isSpace_replicate _) (splits_many.mp h₂) (List.cons.inj hrest).2
    exact ⟨rfl, hrest.symm⟩
  · obtain ⟨y, z', he', hy, hz', hlt⟩ := s.exists_longer hmis
    have hlonger := longest y z' he' (splits_word.mpr hy) hz'
    rcases hcases with rfl | h
    · omega
    · exact h.2

end Setting

/-! ## What the lines store -/

/-- The entry that a line makes in `conflist`. -/
def settingOf (line : Str) : Option (Str × Str) :=
  let splitline := confreg.matchStr line
  if line.head? ≠ some '#' ∧ splitline.1 ≠ 0 then
    some (splitline.2.getD 0 [], splitline.2.getD 1 [])
  else none

theorem Configuration.readLine_eq (conflist : StdMap Str Str) (line : Str) :
    Configuration.readLine conflist line = StdMap.put conflist (settingOf line) := by
  unfold Configuration.readLine settingOf
  dsimp only
  split <;> rfl

theorem settingOf_eq_none {line : Str} (h : confreg.exec (cStr line) = none) :
    settingOf line = none := by
  have hmatch : confreg.matchStr line = (0, []) := by
    rw [MyRegex.matchStr, h]
  rw [settingOf, hmatch]
  exact if_neg fun hne => hne.2 rfl

/-- A NUL behind the name cuts the value. -/
theorem Setting.cStr_text (s : Setting) (hname : '\x00' ∉ s.NAME) :
    cStr s.text = settingText s.NAME s.gap₁ s.gap₂ (cStr s.VALUE) := by
  have hfront : '\x00' ∉ s.NAME ++ (List.replicate s.gap₁ ' ' ++
      '=' :: List.replicate s.gap₂ ' ') := by
    simp [hname]
  have hsplit : ∀ v, settingText s.NAME s.gap₁ s.gap₂ v =
      s.NAME ++ (List.replicate s.gap₁ ' ' ++ '=' :: List.replicate s.gap₂ ' ') ++ v := by
    simp [settingText]
  rw [Setting.text, hsplit, cStr_append hfront, ← hsplit]

/-- A setting with a NUL in the name, or no value in front of the NUL. -/
theorem exec_cut_eq_none (s : Setting) (h : '\x00' ∈ s.NAME ∨ cStr s.VALUE = []) :
    confreg.exec (cStr s.text) = none := by
  refine exec_confreg_eq_none fun a b he c hc => ?_
  by_cases hname : '\x00' ∈ s.NAME
  · obtain ⟨u, t, hut, hu⟩ := List.eq_append_cons_of_mem hname
    have hcut : cStr s.text = u := by
      rw [Setting.text, settingText, hut, List.append_assoc, cStr_append hu]
      exact List.append_nil u
    refine absurd ?_ s.name_eq
    rw [hut, ← hcut, he]
    simp
  · rw [s.cStr_text hname, h.resolve_left hname, settingText, List.append_nil,
      ← List.append_assoc] at he
    obtain ⟨-, -, rfl⟩ := (List.append_cons_inj_of_notMem (by simp [s.name_eq]) (by simp)).mp he
    exact (List.mem_replicate.mp hc).2

/-- A setting is stored as it is written up to the NUL, or not under a name that a line can have. -/
theorem settingOf_text (s : Setting) :
    (s.Kept → settingOf s.text = some (s.NAME, cStr s.VALUE)) ∧
      (¬ s.Kept → ∀ e ∈ settingOf s.text, '=' ∈ e.1) := by
  by_cases hcut : '\x00' ∈ s.NAME ∨ cStr s.VALUE = []
  · rw [settingOf_eq_none (exec_cut_eq_none s hcut)]
    refine ⟨fun hk => ?_, fun _ => nofun⟩
    exact absurd hcut (not_or.mpr ⟨hk.1, hk.2.1⟩)
  · obtain ⟨hname, hvalue⟩ := not_or.mp hcut
    obtain ⟨t, ht⟩ := exists_cStr_append s.VALUE
    have hspace : ' ' ∉ cStr s.VALUE := fun h => s.value_space (ht ▸ List.mem_append_left t h)
    let s' : Setting := { s with VALUE := cStr s.VALUE, value_ne := hvalue, value_space := hspace }
    have htext : cStr s.text = s'.text := s.cStr_text hname
    obtain ⟨k, v, hexec, hplain, hmis⟩ := s'.exec_text
    have hhead : s.text.head? ≠ some '#' := by
      rw [Setting.text, settingText, List.head?_append_of_ne_nil _ s.name_ne]
      exact s.name_comment
    have hlen : s'.text.length ≠ 0 := by
      simp [Setting.text, settingText]
    have hentry : settingOf s.text = some (k, v) := by
      rw [settingOf, MyRegex.matchStr, htext, hexec]
      exact if_pos ⟨hhead, hlen⟩
    rw [hentry]
    refine ⟨fun hk => ?_, fun hk e he => ?_⟩
    · obtain ⟨rfl, rfl⟩ := hplain hk.2.2
      rfl
    · obtain rfl := Option.some.inj he
      exact hmis (not_not.mp fun h => hk ⟨hname, hvalue, h⟩)

def ConfLine.entry : ConfLine → Option (Str × Str)
  | comment _ => none
  | setting s => some (s.NAME, s.VALUE)

def ConfLine.kept : ConfLine → Option (Str × Str)
  | comment _ => none
  | setting s => if s.Kept then some (s.NAME, cStr s.VALUE) else none

/-- The value in the last line for a name. -/
def lastSetting (ls : List ConfLine) (name : Str) : Option Str := lastEntry ConfLine.entry ls name

def lastKept (ls : List ConfLine) (name : Str) : Option Str := lastEntry ConfLine.kept ls name

theorem filter_settingOf (l : ConfLine) {name : Str} (hname : '=' ∉ name) :
    (settingOf l.text).filter (·.1 = name) = l.kept.filter (·.1 = name) := by
  cases l with
  | comment rest =>
    rw [settingOf]
    exact congrArg _ (if_neg fun h => h.1 rfl)
  | setting s =>
    obtain ⟨hkept, hlost⟩ := settingOf_text s
    rw [ConfLine.text, ConfLine.kept]
    split
    · next hk => rw [hkept hk]
    · next hk =>
      rw [Option.filter_none, Option.filter_eq_none_iff]
      intro e he
      have hne : e.1 ≠ name := fun h => hname (h ▸ hlost hk e he)
      simpa using hne

/-! ## The whole file -/

theorem lookup_defaults (c : Configuration) {e : Str × Str} (he : e ∈ CONF) :
    c.defaults.lookup e.1 = some e.2 := by
  have hlast : ∀ e ∈ CONF, CONF.reverse.find? (·.1 = e.1) = some e := by decide
  rw [Configuration.defaults, lookup_foldl_insert, hlast e he]
  rfl

theorem lastKept_eq_none {ls : List ConfLine} {name : Str} (h : lastSetting ls name = none) :
    lastKept ls name = none := by
  refine lastEntry_eq_none_iff.mpr fun l hl e he => ?_
  cases l with
  | comment rest => cases he
  | setting s =>
    have hname : s.NAME ≠ name := lastEntry_eq_none_iff.mp h _ hl _ rfl
    rw [ConfLine.kept] at he
    split at he
    · obtain rfl := Option.some.inj he
      exact hname
    · cases he

theorem lastEntry_lines {ls : List ConfLine} {extra : List Str} (hextra : extra = [] ∨ extra = [[]])
    {name : Str} (hname : '=' ∉ name) :
    lastEntry settingOf (ls.map ConfLine.text ++ extra) name = lastKept ls name := by
  have hnil : lastEntry settingOf extra name = none := by
    rcases hextra with rfl | rfl
    · rfl
    · rw [lastEntry, List.filterMap_cons_none (settingOf_eq_none ?_)]
      · rfl
      · exact exec_confreg_eq_none fun a b he => absurd he (by simp [cStr])
  rw [lastEntry_append, hnil, Option.none_or, lastEntry, List.filterMap_map, ← lastEntry]
  exact lastEntry_congr fun l _ => filter_settingOf l hname

/-- `ReadFile` returns, and what it makes of the names that a line can have. -/
theorem readFile_lookup (env : ConfEnv) (c : Configuration) {dotpath fullname content : Str}
    (hdot : Configuration.dotpath env.HOME = .ok dotpath)
    (hopen : Configuration.openConf env dotpath = some (fullname, content)) {ls : List ConfLine}
    (hlines : lines content = ls.map ConfLine.text) (hfit : ∀ l ∈ ls, l.text.length < LINESIZE) :
    ∃ c', (∀ r, c.ReadFile env r ↔ r = .ok c') ∧ ∀ name, '=' ∉ name → ¬ "$$".toList <+: name →
      c'.conflist.lookup name = (lastKept ls name).or (c.defaults.lookup name) := by
  have hfit' : ∀ l ∈ lines content, l.length < LINESIZE := by
    rw [hlines]
    exact List.forall_mem_map.mpr hfit
  obtain ⟨j, extra, hextra, hpulls⟩ := pulls_untilEof (ε := Abort) (by decide) hfit'
  let conflist := (lines content ++ extra).foldl Configuration.readLine c.defaults
  have hends : ∀ r, Ends Configuration.readRound (ofText content, c.defaults) r ↔
      r = .ok (j, conflist) := fun r => ends_round_ok_iff hpulls
  refine ⟨⟨(conflist.insert "$$CONFDIR".toList dotpath).insert "$$CONFFILE".toList fullname⟩,
    fun r => ?_, fun name heq hown => ?_⟩
  · simp only [Configuration.ReadFile, hdot, hopen, hends, exists_eq_left]
    rfl
  · have hdir : name ≠ "$$CONFDIR".toList := by
      rintro rfl
      exact hown ⟨"CONFDIR".toList, rfl⟩
    have hfile : name ≠ "$$CONFFILE".toList := by
      rintro rfl
      exact hown ⟨"CONFFILE".toList, rfl⟩
    rw [AList.lookup_insert_ne hfile, AList.lookup_insert_ne hdir, ← lastEntry_lines hextra heq,
      ← hlines, ← lookup_foldl_put]
    show (List.foldl Configuration.readLine _ _).lookup name = _
    congr 2
    funext m l
    exact Configuration.readLine_eq m l

theorem of_lastSetting {ls : List ConfLine} {name value : Str}
    (h : lastSetting ls name = some value) :
    '=' ∉ name ∧ ¬ "$$".toList <+: name ∧ value ≠ [] := by
  obtain ⟨l, -, hl⟩ := exists_of_lastEntry h
  cases l with
  | comment rest => cases hl
  | setting s =>
    obtain ⟨rfl, rfl⟩ := Prod.mk.inj (Option.some.inj hl)
    exact ⟨s.name_eq, s.name_own, s.value_ne⟩

/-- **The settings are those of the file** exactly if each name that the file sets has the value of
its last setting by the last one that is kept, or from before if none is. -/
theorem settings_read_iff (env : ConfEnv) (c : Configuration) {dotpath fullname content : Str}
    (hdot : Configuration.dotpath env.HOME = .ok dotpath)
    (hopen : Configuration.openConf env dotpath = some (fullname, content)) {ls : List ConfLine}
    (hlines : lines content = ls.map ConfLine.text) (hfit : ∀ l ∈ ls, l.text.length < LINESIZE) :
    ∃ c', (∀ r, c.ReadFile env r ↔ r = .ok c') ∧
      (((∀ name value, lastSetting ls name = some value → c'.getString name = value) ∧
          ∀ e ∈ CONF, lastSetting ls e.1 = none → c'.getString e.1 = e.2) ↔
        ∀ name value, lastSetting ls name = some value →
          (lastKept ls name).or (c.defaults.lookup name) = some value) := by
  obtain ⟨c', hread, hlookup⟩ := readFile_lookup env c hdot hopen hlines hfit
  refine ⟨c', hread, fun h name value hset => ?_, fun h => ⟨fun name value hset => ?_, ?_⟩⟩
  · obtain ⟨heq, hown, hne⟩ := of_lastSetting hset
    have hvalue := h.1 name value hset
    rw [Configuration.getString, hlookup name heq hown] at hvalue
    cases hres : (lastKept ls name).or (c.defaults.lookup name) with
    | none =>
      rw [hres] at hvalue
      exact absurd hvalue.symm hne
    | some v =>
      rw [hres] at hvalue
      exact congrArg some hvalue
  · obtain ⟨heq, hown, -⟩ := of_lastSetting hset
    rw [Configuration.getString, hlookup name heq hown, h name value hset]
    rfl
  · intro e he hset
    have hnames : ∀ e ∈ CONF, '=' ∉ e.1 ∧ ¬ "$$".toList <+: e.1 := by decide
    rw [Configuration.getString, hlookup e.1 (hnames e he).1 (hnames e he).2,
      lastKept_eq_none hset, lookup_defaults c he]
    rfl

def homeConf (content : Str) : ConfEnv where
  HOME := some "/root".toList
  NETDJ_ETCDIR := "/etc".toList
  content := fun name => if name = "/root/.netdj/config".toList then some content else none

def portSetting : Setting where
  NAME := "HTTP_PORT".toList
  gap₁ := 1
  gap₂ := 1
  VALUE := "80".toList
  name_ne := by decide
  name_space := by decide
  name_eq := by decide
  name_comment := by decide
  name_own := by decide
  value_ne := by decide
  value_space := by decide

theorem settings_read_port : ∃ c',
    Configuration.ReadFile (homeConf "HTTP_PORT = 80\n#x\n".toList) ⟨∅⟩ (.ok c') ∧
    c'.getString "HTTP_PORT".toList = "80".toList ∧
      c'.getString "STREAM_MOUNT".toList = "netdj".toList := by
  have hlines : lines "HTTP_PORT = 80\n#x\n".toList =
      [ConfLine.setting portSetting, .comment "x".toList].map ConfLine.text := by decide
  obtain ⟨c', hread, hiff⟩ := settings_read_iff (homeConf _) ⟨∅⟩ rfl rfl hlines (by decide)
  obtain ⟨hset, hdefault⟩ := hiff.mpr fun name value h => by
    obtain ⟨l, hl, he⟩ := exists_of_lastEntry h
    simp only [List.mem_cons, List.not_mem_nil, or_false] at hl
    rcases hl with rfl | rfl
    · obtain ⟨rfl, rfl⟩ := Prod.mk.inj (Option.some.inj he)
      decide
    · cases he
  exact ⟨c', (hread _).mpr rfl, hset _ _ (by decide), hdefault ("STREAM_MOUNT".toList, _)
    (by decide) (by decide)⟩

def redirectSetting : Setting where
  NAME := "HTTP_REDIRECT".toList
  gap₁ := 0
  gap₂ := 0
  VALUE := "http://h/?a=b".toList
  name_ne := by decide
  name_space := by decide
  name_eq := by decide
  name_comment := by decide
  name_own := by decide
  value_ne := by decide
  value_space := by decide

/-- The redirection is lost. -/
theorem setting_misread : lines "HTTP_REDIRECT=http://h/?a=b\n".toList = [redirectSetting.text] ∧
    ∃ c', Configuration.ReadFile (homeConf "HTTP_REDIRECT=http://h/?a=b\n".toList) ⟨∅⟩ (.ok c') ∧
      c'.getString redirectSetting.NAME ≠ redirectSetting.VALUE := by
  have hlines : lines "HTTP_REDIRECT=http://h/?a=b\n".toList =
      [ConfLine.setting redirectSetting].map ConfLine.text := by decide
  obtain ⟨c', hread, hlookup⟩ := readFile_lookup (homeConf _) ⟨∅⟩ rfl rfl hlines (by decide)
  refine ⟨hlines, c', (hread _).mpr rfl, ?_⟩
  rw [Configuration.getString, hlookup _ (by decide) (by decide)]
  decide

end NetDJ.Daemon
