import NetDJ.Lib.Lists
import NetDJ.Engine.Songlist

/-!
# `Collection_Songlist_Dir.cpp`: songs read from a directory

The loop of `Update` moves to the next entry only when a pass ends without an exception and without
`continue`, so the answers of the operating system come as a list of passes.

* `CollectionSonglistDir.update` : the call, `none` as long as the loop is not through;
* `scanLoop_keeps` : what each song that a scan takes keeps, the scan keeps;
* `update_queue` : a queue takes the records of its directory above its time stamp;
* `update_flagged` : every song on the list carries the flag of the collection.
-/

namespace NetDJ.Engine

structure CollectionSonglistDir extends CollectionSonglist where
  mDirectory : Str
  mLastTimeStamp : QDateTime
  mDeleteAfterPlay : Bool

/-- An entry of the directory, as `QFileInfo` shows it: symbolic links are followed for
`lastModified`. -/
structure FileInfo where
  filePath : Str
  isSymLink : Bool
  lastModified : Int
  deriving DecidableEq

/-- What one pass of the loop meets: `st_ctime` of each path, or -1 from `lstat`; and the memory
that `new` gives, unless it throws. The memory is asked for before `GetNewUNID` is called, so that a
`new` that throws takes no number: the numbering without gaps rests on this order, which is the
compiler's choice. -/
structure Pass where
  lstat : Str → Option Int
  newSong : Option Bool

/-- The variables of the loop, and the songs put on a list with the dates they were taken at. -/
structure Scan where
  col : CollectionSonglistDir
  newlist : List SongFile
  accepted : List (SongFile × Int)

/-- `fDate`, unless `lstat` fails. -/
def fDate (fi : FileInfo) (p : Pass) : Option Int :=
  if fi.isSymLink then p.lstat fi.filePath else some fi.lastModified

namespace Scan

/-- `fDate >= mLastTimeStamp || !mIsQueue`. -/
def takes (s : Scan) (date : Int) : Bool :=
  decide (s.col.mLastTimeStamp ≤ date) || !s.col.mIsQueue

theorem takes_iff {s : Scan} (hq : s.col.mIsQueue = true) (date : Int) :
    s.takes date = true ↔ s.col.mLastTimeStamp ≤ date := by
  simp [takes, hq]

def add (s : Scan) (fi : FileInfo) (date : Int) (memory : Bool) : Scan :=
  let (base, unid) := s.col.getNewUNID
  let newsong := (SongFile.new memory fi.filePath unid).setDeleteAfterPlay s.col.mDeleteAfterPlay
  let col := { s.col with toCollectionSonglist := base, mLastTimeStamp := date }
  if s.col.mIsQueue then
    ⟨{ col with mSonglist := col.mSonglist ++ [newsong] }, s.newlist,
      s.accepted ++ [(newsong, date)]⟩
  else ⟨col, s.newlist ++ [newsong], s.accepted ++ [(newsong, date)]⟩

end Scan

/-- A pass of the loop on the entry `fi`; `none` if it stays on it. -/
def scanPass (s : Scan) (fi : FileInfo) (p : Pass) : Option Scan :=
  match fDate fi p with
  | none => none -- `continue` without `++it`
  | some date =>
    if s.takes date then
      match p.newSong with
      | none => none -- `catch (...)` without `++it`
      | some memory => some (s.add fi date memory)
    else some s

def scanLoop (s : Scan) : List FileInfo → List Pass → Option Scan
  | [], _ => some s
  | _ :: _, [] => none
  | fi :: list, p :: passes =>
    match scanPass s fi p with
    | none => scanLoop s (fi :: list) passes
    | some s' => scanLoop s' list passes

namespace CollectionSonglistDir

def init (aId aDescr aDir : Str) (aIsQ aDelete : Bool) : CollectionSonglistDir :=
  { CollectionSonglist.new aId aDescr aIsQ with
    mDirectory := aDir, mLastTimeStamp := .null, mDeleteAfterPlay := aDelete }

/-- The end of `Update`: the second that is added, and the swap. -/
def finish (s : Scan) : CollectionSonglistDir :=
  let c := { s.col with mLastTimeStamp := s.col.mLastTimeStamp.addSecs 1 }
  if c.mIsQueue then c else { c with mSonglist := s.newlist }

/-- `Update` on the entries of the directory, `none` if it does not exist: the songs accepted, or
the exception. -/
def update (c : CollectionSonglistDir) (list : Option (List FileInfo)) (passes : List Pass) :
    Option (CollectionSonglistDir × Except Failure (List (SongFile × Int))) :=
  match list with
  | none =>
    some (c, .error (.thrown (.std
      ("Could not open directory '".toList ++ c.mDirectory ++ "'!".toList))))
  | some list =>
    (scanLoop ⟨c, [], []⟩ list passes).map fun s => (finish s, .ok s.accepted)

end CollectionSonglistDir

/-! ## One pass -/

namespace Scan

theorem add_mIsQueue (s : Scan) (fi : FileInfo) (date : Int) (memory : Bool) :
    (s.add fi date memory).col.mIsQueue = s.col.mIsQueue := by
  unfold add
  by_cases hq : s.col.mIsQueue = true <;> simp [hq, CollectionSonglist.getNewUNID]

theorem add_mDeleteAfterPlay (s : Scan) (fi : FileInfo) (date : Int) (memory : Bool) :
    (s.add fi date memory).col.mDeleteAfterPlay = s.col.mDeleteAfterPlay := by
  unfold add
  by_cases hq : s.col.mIsQueue = true <;> simp [hq]

@[simp] theorem add_mLastTimeStamp (s : Scan) (fi : FileInfo) (date : Int) (memory : Bool) :
    (s.add fi date memory).col.mLastTimeStamp = date := by
  unfold add
  by_cases hq : s.col.mIsQueue = true <;> simp [hq]

theorem add_accepted (s : Scan) (fi : FileInfo) (date : Int) (memory : Bool) :
    ∃ song : SongFile, song.mFilename = fi.filePath ∧
      song.mDeleteAfterPlay = s.col.mDeleteAfterPlay ∧
      (s.add fi date memory).accepted = s.accepted ++ [(song, date)] ∧
      (s.add fi date memory).newlist =
        (if s.col.mIsQueue then s.newlist else s.newlist ++ [song]) ∧
      (s.add fi date memory).col.mSonglist =
        (if s.col.mIsQueue then s.col.mSonglist ++ [song] else s.col.mSonglist) := by
  refine ⟨(SongFile.new memory fi.filePath s.col.getNewUNID.2).setDeleteAfterPlay
    s.col.mDeleteAfterPlay, rfl, rfl, ?_⟩
  unfold add
  by_cases hq : s.col.mIsQueue = true <;> simp [hq, CollectionSonglist.getNewUNID]

end Scan

/-- A pass that moves on has a date, and adds the entry or leaves everything as it was. -/
theorem scanPass_cases {s s' : Scan} {fi : FileInfo} {p : Pass} (h : scanPass s fi p = some s') :
    ∃ date, fDate fi p = some date ∧
      ((s.takes date = true ∧ ∃ memory, s' = s.add fi date memory) ∨
        (s.takes date = false ∧ s' = s)) := by
  unfold scanPass at h
  split at h
  · cases h
  · next date hd =>
    refine ⟨date, hd, ?_⟩
    split at h
    · next ht =>
      split at h
      · cases h
      · exact .inl ⟨ht, _, (Option.some.inj h).symm⟩
    · next ht => exact .inr ⟨Bool.eq_false_of_not_eq_true ht, (Option.some.inj h).symm⟩

/-- What each song that a scan takes keeps, the scan keeps. -/
theorem scanLoop_keeps {I : Scan → Prop}
    (hadd : ∀ s fi date memory, I s → I (s.add fi date memory)) {s s' : Scan}
    {list : List FileInfo} {passes : List Pass} (hs : I s)
    (h : scanLoop s list passes = some s') : I s' := by
  fun_induction scanLoop s list passes with
  | case1 =>
    cases h
    exact hs
  | case2 => cases h
  | case3 s fi list p passes _ ih => exact ih hs h
  | case4 s fi list p passes s₁ hpass ih =>
    obtain ⟨date, -, ⟨-, memory, rfl⟩ | ⟨-, rfl⟩⟩ := scanPass_cases hpass
    · exact ih (hadd s fi date memory hs) h
    · exact ih hs h

theorem scanPass_works (s : Scan) {fi : FileInfo} {p : Pass} (hnew : p.newSong.isSome)
    (hdate : (fDate fi p).isSome) : ∃ s', scanPass s fi p = some s' := by
  obtain ⟨memory, hm⟩ := Option.isSome_iff_exists.mp hnew
  obtain ⟨date, hd⟩ := Option.isSome_iff_exists.mp hdate
  unfold scanPass
  rw [hd, hm]
  dsimp only
  split
  · exact ⟨_, rfl⟩
  · exact ⟨_, rfl⟩

/-! ## The loop -/

/-- The loop comes to an end if `lstat` and `new` work. -/
theorem scanLoop_returns {list : List FileInfo} {passes : List Pass} (s : Scan)
    (works : ∀ p ∈ passes, p.newSong.isSome ∧ ∀ fi ∈ list, (fDate fi p).isSome)
    (hl : list.length ≤ passes.length) : ∃ s', scanLoop s list passes = some s' := by
  induction list generalizing passes s with
  | nil => exact ⟨s, by cases passes <;> rfl⟩
  | cons fi list ih =>
    cases passes with
    | nil => exact absurd hl (by simp)
    | cons p passes =>
      obtain ⟨hnew, hdate⟩ := works p List.mem_cons_self
      obtain ⟨s₁, h₁⟩ := scanPass_works s hnew (hdate fi List.mem_cons_self)
      unfold scanLoop
      rw [h₁]
      refine ih s₁ (fun q hq => ?_) (Nat.le_of_succ_le_succ hl)
      obtain ⟨hn, hf⟩ := works q (List.mem_cons_of_mem p hq)
      exact ⟨hn, fun f hf' => hf f (List.mem_cons_of_mem fi hf')⟩

/-- What the loop makes of the scan `s` of a queue, `dated` being the entries it has left behind
with the dates it took them at. -/
structure Scanned (s : Scan) (passes : List Pass) (dated : List (FileInfo × Int)) (s' : Scan) :
    Prop where
  queue : s'.col.mIsQueue = true
  dates : ∀ x ∈ dated, ∃ p ∈ passes, fDate x.1 p = some x.2
  mark : s'.col.mLastTimeStamp = high dateOf s.col.mLastTimeStamp dated
  songs : ∃ new : List (SongFile × Int), s'.accepted = s.accepted ++ new ∧
    s'.col.mSonglist = s.col.mSonglist ++ new.map (·.1) ∧
    new.map (fun x => (x.1.mFilename, x.2)) =
      (records dateOf s.col.mLastTimeStamp dated).map fun x => (x.1.filePath, x.2)

namespace Scanned

theorem stop {s : Scan} (hq : s.col.mIsQueue = true) (passes : List Pass) :
    Scanned s passes [] s :=
  ⟨hq, fun _ h => absurd h List.not_mem_nil, rfl, [], (List.append_nil _).symm,
    (List.append_nil _).symm, rfl⟩

theorem dates_cons {s s' : Scan} {p : Pass} {passes : List Pass} {dated : List (FileInfo × Int)}
    (hs : Scanned s passes dated s') :
    ∀ x ∈ dated, ∃ p' ∈ p :: passes, fDate x.1 p' = some x.2 := by
  intro x hx
  obtain ⟨p', hp', hd⟩ := hs.dates x hx
  exact ⟨p', List.mem_cons_of_mem p hp', hd⟩

theorem take {s s' : Scan} {p : Pass} {passes : List Pass} {dated : List (FileInfo × Int)}
    {fi : FileInfo} {date : Int} {memory : Bool} (hq : s.col.mIsQueue = true)
    (hd : fDate fi p = some date) (ht : s.col.mLastTimeStamp ≤ date)
    (hs : Scanned (s.add fi date memory) passes dated s') :
    Scanned s (p :: passes) ((fi, date) :: dated) s' := by
  obtain ⟨new, hacc, hsongs, hnew⟩ := hs.songs
  obtain ⟨song, hname, -, hacc₁, -, hsongs₁⟩ := s.add_accepted fi date memory
  rw [if_pos hq] at hsongs₁
  refine ⟨hs.queue, List.forall_mem_cons.mpr ⟨⟨p, List.mem_cons_self, hd⟩, hs.dates_cons⟩, ?_,
    (song, date) :: new, ?_, ?_, ?_⟩
  · rw [hs.mark, Scan.add_mLastTimeStamp, high.cons_of_le (show _ ≤ dateOf (fi, date) from ht)]
    rfl
  · rw [hacc, hacc₁, List.append_assoc]
    rfl
  · rw [hsongs, hsongs₁, List.append_assoc]
    rfl
  · rw [records, if_pos (show _ ≤ dateOf (fi, date) from ht), List.map_cons, List.map_cons, hname,
      hnew, Scan.add_mLastTimeStamp]
    rfl

theorem leave {s s' : Scan} {p : Pass} {passes : List Pass} {dated : List (FileInfo × Int)}
    {fi : FileInfo} {date : Int} (hd : fDate fi p = some date) (ht : ¬ s.col.mLastTimeStamp ≤ date)
    (hs : Scanned s passes dated s') : Scanned s (p :: passes) ((fi, date) :: dated) s' := by
  refine ⟨hs.queue, List.forall_mem_cons.mpr ⟨⟨p, List.mem_cons_self, hd⟩, hs.dates_cons⟩, ?_, ?_⟩
  · rw [hs.mark, high.cons_of_ge (show dateOf (fi, date) ≤ _ from (not_le.mp ht).le)]
  · rw [records, if_neg (show ¬ _ ≤ dateOf (fi, date) from ht)]
    exact hs.songs

end Scanned

/-- A queue takes the records of its directory, above its time stamp. -/
theorem scanLoop_scanned {passes : List Pass} {s s' : Scan} {list : List FileInfo}
    (hq : s.col.mIsQueue = true) (h : scanLoop s list passes = some s') :
    ∃ dated, dated.map (·.1) = list ∧ Scanned s passes dated s' := by
  fun_induction scanLoop s list passes with
  | case1 passes s =>
    cases h
    exact ⟨[], rfl, Scanned.stop hq passes⟩
  | case2 => cases h
  | case3 s fi list p passes _ ih =>
    obtain ⟨dated, hl, hs⟩ := ih hq h
    exact ⟨dated, hl, hs.queue, hs.dates_cons, hs.mark, hs.songs⟩
  | case4 s fi list p passes s₁ hpass ih =>
    obtain ⟨date, hd, ⟨ht, memory, rfl⟩ | ⟨ht, rfl⟩⟩ := scanPass_cases hpass
    · obtain ⟨dated, hl, hs⟩ := ih (by rw [Scan.add_mIsQueue, hq]) h
      refine ⟨(fi, date) :: dated, congrArg (fi :: ·) hl, hs.take hq hd ?_⟩
      exact (Scan.takes_iff hq date).mp ht
    · obtain ⟨dated, hl, hs⟩ := ih hq h
      refine ⟨(fi, date) :: dated, congrArg (fi :: ·) hl, hs.leave hd fun hle => ?_⟩
      rw [(Scan.takes_iff hq date).mpr hle] at ht
      exact absurd ht (by decide)

/-! ## The call -/

namespace CollectionSonglistDir

/-- What a call of `Update` that returns makes of a queue. -/
structure Updated (c : CollectionSonglistDir) (passes : List Pass) (dated : List (FileInfo × Int))
    (new : List (SongFile × Int)) (c' : CollectionSonglistDir) : Prop where
  queue : c'.mIsQueue = true
  dates : ∀ x ∈ dated, ∃ p ∈ passes, fDate x.1 p = some x.2
  mark : c'.mLastTimeStamp = (high dateOf c.mLastTimeStamp dated).addSecs 1
  songs : c'.mSonglist = c.mSonglist ++ new.map (·.1)
  new_eq : new.map (fun x => (x.1.mFilename, x.2)) =
    (records dateOf c.mLastTimeStamp dated).map fun x => (x.1.filePath, x.2)

theorem update_cases {c c' : CollectionSonglistDir} {list : Option (List FileInfo)}
    {passes : List Pass} {r : Except Failure (List (SongFile × Int))}
    (h : c.update list passes = some (c', r)) :
    (list = none ∧ c' = c ∧ ∃ e, r = .error (.thrown (.std e))) ∨
      ∃ l s, list = some l ∧ scanLoop ⟨c, [], []⟩ l passes = some s ∧ c' = finish s ∧
        r = .ok s.accepted := by
  unfold update at h
  split at h
  · cases h
    exact .inl ⟨rfl, rfl, _, rfl⟩
  · next l =>
    obtain ⟨s, hs, he⟩ := Option.map_eq_some_iff.mp h
    cases he
    exact .inr ⟨l, s, rfl, hs, rfl, rfl⟩

theorem update_some {c c' : CollectionSonglistDir} {list : List FileInfo} {passes : List Pass}
    {r : Except Failure (List (SongFile × Int))} (h : c.update (some list) passes = some (c', r)) :
    ∃ new, r = .ok new := by
  rcases update_cases h with ⟨hn, -, -⟩ | ⟨_, s, _, _, _, hr⟩
  · cases hn
  · exact ⟨s.accepted, hr⟩

theorem update_queue {c c' : CollectionSonglistDir} {list : Option (List FileInfo)}
    {passes : List Pass} {new : List (SongFile × Int)} (hq : c.mIsQueue = true)
    (h : c.update list passes = some (c', .ok new)) :
    ∃ dated, list = some (dated.map (·.1)) ∧ Updated c passes dated new c' := by
  rcases update_cases h with ⟨-, -, e, he⟩ | ⟨l, s, rfl, hs, rfl, he⟩
  · cases he
  · cases he
    obtain ⟨dated, rfl, hscan⟩ := scanLoop_scanned hq hs
    obtain ⟨new, hacc, hsongs, hnew⟩ := hscan.songs
    have hfin : finish s = { s.col with mLastTimeStamp := s.col.mLastTimeStamp.addSecs 1 } := by
      unfold finish
      exact if_pos hscan.queue
    rw [List.nil_append] at hacc
    refine ⟨dated, rfl, ?_, hscan.dates, ?_, ?_, ?_⟩
    · rw [hfin]
      exact hscan.queue
    · rw [hfin, ← hscan.mark]
    · rw [hfin, hacc]
      exact hsongs
    · rw [hacc]
      exact hnew

theorem update_returns (c : CollectionSonglistDir) {list : List FileInfo} {passes : List Pass}
    (works : ∀ p ∈ passes, p.newSong.isSome ∧ ∀ fi ∈ list, (fDate fi p).isSome)
    (hl : list.length ≤ passes.length) :
    ∃ c' new, c.update (some list) passes = some (c', .ok new) := by
  obtain ⟨s, hs⟩ := scanLoop_returns ⟨c, [], []⟩ works hl
  exact ⟨finish s, s.accepted, by rw [update, hs]; rfl⟩

/-! ## The flag of the songs -/

/-- Every song on the list is to be deleted exactly if the collection says so. -/
def Flagged (c : CollectionSonglistDir) : Prop :=
  ∀ song ∈ c.mSonglist, song.mDeleteAfterPlay = c.mDeleteAfterPlay

theorem init_flagged (aId aDescr aDir : Str) (aIsQ aDelete : Bool) :
    (init aId aDescr aDir aIsQ aDelete).Flagged := fun _ h => absurd h List.not_mem_nil

end CollectionSonglistDir

/-- The lists of the loop hold songs with the flag `flag` only, as the collection has it. -/
structure ScanFlagged (flag : Bool) (s : Scan) : Prop where
  col : s.col.mDeleteAfterPlay = flag
  songs : ∀ song ∈ s.col.mSonglist, song.mDeleteAfterPlay = flag
  newlist : ∀ song ∈ s.newlist, song.mDeleteAfterPlay = flag

theorem ScanFlagged.add {flag : Bool} {s : Scan} (hs : ScanFlagged flag s) (fi : FileInfo)
    (date : Int) (memory : Bool) : ScanFlagged flag (s.add fi date memory) := by
  obtain ⟨song, -, hflag, -, hnew, hsongs⟩ := s.add_accepted fi date memory
  rw [hs.col] at hflag
  refine ⟨by rw [Scan.add_mDeleteAfterPlay, hs.col], ?_, ?_⟩
  · rw [hsongs]
    split
    · exact List.forall_mem_append.mpr ⟨hs.songs, List.forall_mem_singleton.mpr hflag⟩
    · exact hs.songs
  · rw [hnew]
    split
    · exact hs.newlist
    · exact List.forall_mem_append.mpr ⟨hs.newlist, List.forall_mem_singleton.mpr hflag⟩

theorem scanLoop_flagged {flag : Bool} {passes : List Pass} {s s' : Scan} {list : List FileInfo}
    (hs : ScanFlagged flag s) (h : scanLoop s list passes = some s') : ScanFlagged flag s' := by
  fun_induction scanLoop s list passes with
  | case1 =>
    cases h
    exact hs
  | case2 => cases h
  | case3 s fi list p passes _ ih => exact ih hs h
  | case4 s fi list p passes s₁ hpass ih =>
    obtain ⟨date, -, ⟨-, memory, rfl⟩ | ⟨-, rfl⟩⟩ := scanPass_cases hpass
    · exact ih (hs.add fi date memory) h
    · exact ih hs h

namespace CollectionSonglistDir

theorem update_flagged {c c' : CollectionSonglistDir} {list : Option (List FileInfo)}
    {passes : List Pass} {r : Except Failure (List (SongFile × Int))} (hc : c.Flagged)
    (h : c.update list passes = some (c', r)) :
    c'.mDeleteAfterPlay = c.mDeleteAfterPlay ∧ c'.Flagged := by
  rcases update_cases h with ⟨-, rfl, -⟩ | ⟨l, s, -, hs, rfl, -⟩
  · exact ⟨rfl, hc⟩
  · have hf₀ : ScanFlagged c.mDeleteAfterPlay ⟨c, [], []⟩ :=
      ⟨rfl, hc, fun _ h => absurd h List.not_mem_nil⟩
    have hf := scanLoop_flagged hf₀ hs
    unfold finish Flagged
    by_cases hq : s.col.mIsQueue = true
    · rw [if_pos hq]
      exact ⟨hf.col, hf.col ▸ hf.songs⟩
    · rw [if_neg hq]
      exact ⟨hf.col, hf.col ▸ hf.newlist⟩

end CollectionSonglistDir

end NetDJ.Engine
