import NetDJ.Lib.Machine
import NetDJ.Engine.SonglistFile

/-!
# `Collection_Songlist_File.cpp`: a list file that is rewritten

The file is rewritten in place, or another one is moved into its place, at any moment: also between
the steps of `Update`, which looks at the date, opens the file and reads it. A file that was opened
stays the one that is read; what is rewritten meanwhile may show in the lines or not.

* `FileRun.step` : the writers, the clock, and the steps of `Update`;
* `run_update` : undisturbed, the steps make up `Update`;
* `Ok`, `Ok.step` : the date that is stored is the greatest one found, and the list is what was read
  last;
* `follows_iff` : when the list is that of the file each time that `Update` returns.
-/

namespace NetDJ.Engine

/-- What the file holds, and its date in whole seconds. -/
structure Version where
  date : Int
  lines : List Str

/-- Where `Update` stands. -/
inductive UpdatePc where
  | idle
  | opening
  /-- The lines of the file when it was opened, and whether that file has been rewritten since. -/
  | reading (opened : List Str) (rewritten : Bool)

/-- After a write, in place or not. -/
def UpdatePc.written (inPlace : Bool) : UpdatePc → UpdatePc
  | idle => idle
  | opening => opening
  | reading opened rewritten => reading opened (rewritten || inPlace)

/-- The collection and its file. `found` is the greatest date that a check has found, and `loaded`
are the names that the last reading gave: no step looks at them. -/
structure FileRun where
  col : CollectionSonglistFile
  file : Version
  now : Int
  pc : UpdatePc
  found : QDateTime
  loaded : List Str

namespace FileRun

def start (aId aDescr aName : Str) (file : Version) (now : Int) : FileRun :=
  ⟨.init aId aDescr aName, file, now, .idle, .null, []⟩

/-- The file is rewritten in place, or another one is moved there; its date is not in the future. -/
def write (s : FileRun) (v : Version) (inPlace : Bool) : Option FileRun :=
  if v.date ≤ s.now then some { s with file := v, pc := s.pc.written inPlace } else none

def check (s : FileRun) : Option FileRun :=
  match s.pc with
  | .idle =>
    let lastModified : QDateTime := s.file.date
    let s := { s with found := max s.found lastModified }
    if lastModified ≤ s.col.mFiledate then some s
    else some { s with col := { s.col with mFiledate := lastModified }, pc := .opening }
  | _ => none

def openFile (s : FileRun) : Option FileRun :=
  match s.pc with
  | .opening => some { s with pc := .reading s.file.lines false }
  | _ => none

def read (s : FileRun) (lines : List (Str × Option Bool)) : Option FileRun :=
  match s.pc with
  | .reading opened rewritten =>
    if rewritten = true ∨ lines.map (·.1) = opened then
      let (c, newlist) := lines.foldl CollectionSonglistFile.readLine (s.col, [])
      some { s with
        col := { c with mSonglist := newlist }
        pc := .idle
        loaded := CollectionSonglistFile.made lines }
    else none
  | _ => none

inductive Act where
  | tick
  | write (v : Version) (inPlace : Bool)
  | check
  | openFile
  | read (lines : List (Str × Option Bool))

def step (s : FileRun) : Act → Option FileRun
  | .tick => some { s with now := s.now + 1 }
  | .write v inPlace => s.write v inPlace
  | .check => s.check
  | .openFile => s.openFile
  | .read lines => s.read lines

def Returns (s : FileRun) : Act → Prop
  | .check => (s.file.date : QDateTime) ≤ s.col.mFiledate
  | .read _ => True
  | .tick | .write _ _ | .openFile => False

/-- The list has a song for each song line of the file as it is now. -/
def Follows (s : FileRun) : Prop :=
  s.col.mSonglist.map (·.mFilename) = CollectionSonglistFile.songLines s.file.lines

/-- A check finds a date above all dates that were found before, or the song lines that were read
last; and the lines that are read give the song lines of the file as it is then. -/
def Fresh (s : FileRun) : Act → Prop
  | .check => s.found < (s.file.date : QDateTime) ∨
      CollectionSonglistFile.songLines s.file.lines = s.loaded
  | .read lines =>
    CollectionSonglistFile.made lines = CollectionSonglistFile.songLines s.file.lines
  | .tick | .write _ _ | .openFile => True

/-- Without a write in between the steps are those of `Update`. -/
theorem run_update {s : FileRun} (hpc : s.pc = .idle)
    (hdate : ¬ (s.file.date : QDateTime) ≤ s.col.mFiledate) (lines : List (Str × Option Bool))
    (hlines : lines.map (·.1) = s.file.lines) :
    (Machine.run step s [.check, .openFile, .read lines]).map (·.col) =
      some (s.col.update ⟨s.file.date, true, true, true, lines⟩).1 := by
  rw [CollectionSonglistFile.update, if_neg hdate]
  simp only [Machine.run_cons, Machine.run_nil, step, check, openFile, read, hpc, if_neg hdate,
    Option.bind_some, hlines, or_true, if_true]
  rfl

/-! ## The steps of `Update` -/

section Steps
variable {s s' : FileRun}

theorem check_cases (h : s.check = some s') : s.pc = .idle ∧
    ((s.file.date : QDateTime) ≤ s.col.mFiledate ∧
        s' = { s with found := max s.found (s.file.date : QDateTime) } ∨
      s.col.mFiledate < (s.file.date : QDateTime) ∧
        s' = { s with
          found := max s.found (s.file.date : QDateTime)
          col := { s.col with mFiledate := (s.file.date : QDateTime) }
          pc := .opening }) := by
  unfold check at h
  split at h
  · next hpc =>
    refine ⟨hpc, ?_⟩
    dsimp only at h
    split at h
    · next hle => exact .inl ⟨hle, (Option.some.inj h).symm⟩
    · next hlt => exact .inr ⟨not_le.mp hlt, (Option.some.inj h).symm⟩
  · cases h

theorem openFile_eq (h : s.openFile = some s') :
    s.pc = .opening ∧ s' = { s with pc := .reading s.file.lines false } := by
  unfold openFile at h
  split at h
  · next hpc => exact ⟨hpc, (Option.some.inj h).symm⟩
  · cases h

theorem of_read {lines : List (Str × Option Bool)} (h : s.read lines = some s') :
    s'.col.mFiledate = s.col.mFiledate ∧
      s'.col.mSonglist.map (·.mFilename) = CollectionSonglistFile.made lines ∧
      s'.file = s.file ∧ s'.found = s.found ∧ s'.loaded = CollectionSonglistFile.made lines := by
  obtain ⟨hdate, hnames⟩ := CollectionSonglistFile.lines_names lines (s.col, [])
  unfold read at h
  split at h
  · split at h
    · obtain rfl := Option.some.inj h
      exact ⟨hdate, hnames, rfl, rfl, rfl⟩
    · cases h
  · cases h

end Steps

/-! ## What is stored -/

/-- The stored date is the greatest one found, and the list is what was read last. -/
structure Ok (s : FileRun) : Prop where
  date : s.col.mFiledate = s.found
  names : s.col.mSonglist.map (·.mFilename) = s.loaded

theorem Ok.step {s s' : FileRun} {a : Act} (hs : Ok s) (h : s.step a = some s') : Ok s' := by
  cases a with
  | tick =>
    cases h
    exact ⟨hs.date, hs.names⟩
  | write v inPlace =>
    obtain ⟨-, he⟩ := Option.ite_none_right_eq_some.mp h
    cases he
    exact ⟨hs.date, hs.names⟩
  | check =>
    obtain ⟨-, ⟨hle, rfl⟩ | ⟨hlt, rfl⟩⟩ := check_cases h
    · exact ⟨hs.date.trans (max_eq_left (hs.date ▸ hle)).symm, hs.names⟩
    · exact ⟨(max_eq_right (hs.date ▸ hlt.le)).symm, hs.names⟩
  | openFile =>
    obtain ⟨-, rfl⟩ := openFile_eq h
    exact ⟨hs.date, hs.names⟩
  | read lines =>
    obtain ⟨hdate, hnames, -, hfound, hloaded⟩ := of_read h
    exact ⟨hdate.trans (hs.date.trans hfound.symm), hnames.trans hloaded.symm⟩

/-- A step in which `Update` returns leaves the list of the file exactly if it meets the condition. -/
theorem returns_follows_iff {s s' : FileRun} {a : Act} (hs : Ok s) (h : s.step a = some s') :
    (s.Returns a → s'.Follows) ↔ s.Fresh a := by
  cases a with
  | tick | write v inPlace | openFile => exact iff_of_true nofun trivial
  | check =>
    obtain ⟨-, ⟨hle, rfl⟩ | ⟨hlt, rfl⟩⟩ := check_cases h
    · have hnot : ¬ s.found < (s.file.date : QDateTime) := not_lt.mpr (hs.date ▸ hle)
      rw [Fresh, or_iff_right hnot, ← hs.names, eq_comm]
      exact forall_prop_of_true hle
    · exact iff_of_true (fun hle => absurd hlt (not_lt.mpr hle)) (.inl (hs.date ▸ hlt))
  | read lines =>
    obtain ⟨-, hnames, hfile, -⟩ := of_read h
    rw [Follows, hnames, hfile]
    exact forall_prop_of_true trivial

/-- **The list is that of the file whenever `Update` returns** exactly if each check finds a date
above all that were found before or the song lines that were read last, and each reading gives the
song lines of the file as it is when `Update` returns. -/
theorem follows_iff {aId aDescr aName : Str} {file : Version} {now : Int} {as : List Act}
    {s : FileRun} (h : Machine.run step (start aId aDescr aName file now) as = some s) :
    (∀ t a, Machine.Takes step (start aId aDescr aName file now) as t a → t.Returns a →
      ∀ t', t.step a = some t' → t'.Follows) ↔
    ∀ t a, Machine.Takes step (start aId aDescr aName file now) as t a → t.Fresh a := by
  refine Machine.forall_takes_congr (I := Ok) ⟨rfl, rfl⟩ (fun _ _ _ => Ok.step)
    (fun t a t' ht hstep => ?_) h
  rw [← returns_follows_iff ht hstep]
  simp only [hstep, Option.some.injEq, forall_eq']

def oneSong : FileRun := start "c".toList [] "/list".toList ⟨100, ["/a.mp3".toList]⟩ 200

def olderMoved : List Act :=
  [.check, .openFile, .read [("/a.mp3".toList, some false)], .write ⟨99, ["/b.mp3".toList]⟩ false,
    .check]

theorem older_missed : ¬ ∀ as s, Machine.run step oneSong as = some s →
    ∀ t a, Machine.Takes step oneSong as t a → t.Returns a →
      ∀ t', t.step a = some t' → t'.Follows := by
  intro h
  have hreturns : (QDateTime.setTime_t 99) ≤ QDateTime.setTime_t 100 :=
    QDateTime.setTime_t_le.mpr (by decide)
  have hfollows := h olderMoved _ rfl _ .check ⟨olderMoved.dropLast, [], rfl, rfl⟩ hreturns _ rfl
  exact absurd (List.cons.inj hfollows).1 (by decide)

def laterMoved : List Act :=
  [.check, .openFile, .read [("/a.mp3".toList, some false)], .tick,
    .write ⟨201, ["/b.mp3".toList]⟩ false, .check, .openFile,
    .read [("/b.mp3".toList, some false)]]

theorem follows_laterMoved : ∃ s, Machine.run step oneSong laterMoved = some s ∧
    ∀ t a, Machine.Takes step oneSong laterMoved t a → t.Returns a →
      ∀ t', t.step a = some t' → t'.Follows := by
  refine ⟨_, rfl, (follows_iff rfl).mpr ?_⟩
  refine Machine.forall_takes_cons rfl (.inl (by decide)) (Machine.forall_takes_cons rfl trivial
    (Machine.forall_takes_cons rfl rfl ?_))
  refine Machine.forall_takes_cons rfl trivial (Machine.forall_takes_cons rfl trivial
    (Machine.forall_takes_cons rfl (.inl (by decide)) ?_))
  exact Machine.forall_takes_cons rfl trivial (Machine.forall_takes_cons rfl rfl
    Machine.forall_takes_nil)

end FileRun

end NetDJ.Engine
