import NetDJ.Lib.Machine
import NetDJ.Lib.Window
import NetDJ.Engine.Collections

/-!
# `CollectionBase::GetNewUNID`: the ids of the songs on a list

A song gets its id when it is put on the list, at the back. The list loses songs at the front, or is
replaced as a whole, so the ids on it are the ones that the counter took last.

* `ICollection.call` : `Update` and `GetNextSong` as the steps of a run;
* `Numbered` : the ids on the list are the window of the counter;
* `numbered_call` : each call keeps that;
* `unids_nodup` : no two songs on a list share an id, however often the counter wrapped.
-/

namespace NetDJ.Engine

/-- The ids of the songs are the values that the counter took last. -/
def Numbered (mNextUNID : BitVec 32) (songs : List SongFile) : Prop :=
  songs.map (·.mUNID) = window mNextUNID songs.length

namespace Numbered

theorem nil (mNextUNID : BitVec 32) : Numbered mNextUNID [] := rfl

theorem snoc {next : BitVec 32} {songs : List SongFile} (h : Numbered next songs) {song : SongFile}
    (hid : song.mUNID = next + 1) : Numbered (next + 1) (songs ++ [song]) := by
  unfold Numbered at *
  rw [List.map_append, h, List.length_append, List.length_singleton, window_add_one]
  simp [hid]

theorem front {next : BitVec 32} {song : SongFile} {songs : List SongFile}
    (h : Numbered next (song :: songs)) : Numbered next songs := by
  unfold Numbered at *
  rw [List.length_cons, window_succ, List.map_cons] at h
  exact (List.cons.inj h).2

end Numbered

theorem CollectionSonglist.numbered_getNextSong {c : CollectionSonglist} (rand : Nat)
    (h : Numbered c.mNextUNID c.mSonglist) :
    Numbered (c.getNextSong rand).1.mNextUNID (c.getNextSong rand).1.mSonglist := by
  by_cases hq : c.mIsQueue = true
  · cases hl : c.mSonglist with
    | nil =>
      rw [getNextSong_nil hl]
      exact h
    | cons song rest =>
      rw [getNextSong_front hq hl]
      rw [hl] at h
      exact h.front
  · rw [getNextSong_random (Bool.eq_false_of_not_eq_true hq)]
    exact h

/-! ## The scan of a directory -/

namespace Scan

/-- The list that the songs of the scan go to. -/
def target (s : Scan) : List SongFile := if s.col.mIsQueue then s.col.mSonglist else s.newlist

theorem add_target (s : Scan) (fi : FileInfo) (date : Int) (memory : Bool) :
    (s.add fi date memory).col.mNextUNID = s.col.mNextUNID + 1 ∧
      ∃ song : SongFile, song.mUNID = s.col.mNextUNID + 1 ∧
        (s.add fi date memory).target = s.target ++ [song] := by
  by_cases hq : s.col.mIsQueue = true
  · simp [add, target, hq, CollectionSonglist.getNewUNID, SongFile.new,
      SongFile.setDeleteAfterPlay]
  · simp [add, target, hq, CollectionSonglist.getNewUNID, SongFile.new,
      SongFile.setDeleteAfterPlay]

/-- The songs of the scan have the newest ids. -/
def Numbers (s : Scan) : Prop := Numbered s.col.mNextUNID s.target

theorem Numbers.add {s : Scan} (h : s.Numbers) (fi : FileInfo) (date : Int) (memory : Bool) :
    (s.add fi date memory).Numbers := by
  obtain ⟨hnext, song, hid, htarget⟩ := s.add_target fi date memory
  unfold Numbers
  rw [hnext, htarget]
  exact Numbered.snoc h hid

end Scan

theorem scanLoop_numbers {s s' : Scan} {list : List FileInfo} {passes : List Pass}
    (h : s.Numbers) (hloop : scanLoop s list passes = some s') : s'.Numbers := by
  fun_induction scanLoop s list passes with
  | case1 =>
    cases hloop
    exact h
  | case2 => cases hloop
  | case3 s fi list p passes _ ih => exact ih h hloop
  | case4 s fi list p passes s₁ hpass ih =>
    obtain ⟨date, -, ⟨-, memory, rfl⟩ | ⟨-, rfl⟩⟩ := scanPass_cases hpass
    · exact ih (h.add fi date memory) hloop
    · exact ih h hloop

namespace CollectionSonglistDir

theorem finish_target (s : Scan) :
    (finish s).mNextUNID = s.col.mNextUNID ∧ (finish s).mSonglist = s.target := by
  unfold finish Scan.target
  by_cases hq : s.col.mIsQueue = true <;> simp [hq]

theorem numbered_update {c c' : CollectionSonglistDir} {list : Option (List FileInfo)}
    {passes : List Pass} {r : Except Failure (List (SongFile × Int))}
    (hc : Numbered c.mNextUNID c.mSonglist) (h : c.update list passes = some (c', r)) :
    Numbered c'.mNextUNID c'.mSonglist := by
  rcases update_cases h with ⟨-, rfl, -⟩ | ⟨l, s, -, hs, rfl, -⟩
  · exact hc
  · have hstart : Scan.Numbers ⟨c, [], []⟩ := by
      unfold Scan.Numbers Scan.target
      split
      · exact hc
      · exact Numbered.nil _
    obtain ⟨hnext, hsongs⟩ := finish_target s
    rw [hnext, hsongs]
    exact scanLoop_numbers hstart hs

end CollectionSonglistDir

/-! ## The lines of a list file -/

namespace CollectionSonglistFile

theorem numbered_readLine {s : CollectionSonglistFile × List SongFile} (line : Str × Option Bool)
    (h : Numbered s.1.mNextUNID s.2) :
    Numbered (readLine s line).1.mNextUNID (readLine s line).2 := by
  unfold readLine
  dsimp only
  split
  · exact h
  · split
    · exact h
    · exact h.snoc rfl

theorem numbered_lines (lines : List (Str × Option Bool))
    {s : CollectionSonglistFile × List SongFile} (h : Numbered s.1.mNextUNID s.2) :
    Numbered (lines.foldl readLine s).1.mNextUNID (lines.foldl readLine s).2 := by
  induction lines generalizing s with
  | nil => exact h
  | cons line lines ih => exact ih (numbered_readLine line h)

theorem numbered_update {c : CollectionSonglistFile} (file : ListFile)
    (hc : Numbered c.mNextUNID c.mSonglist) :
    Numbered (c.update file).1.mNextUNID (c.update file).1.mSonglist := by
  unfold update
  split
  · exact hc
  · dsimp only
    split
    · exact hc
    · exact numbered_lines file.lines (Numbered.nil _)

end CollectionSonglistFile

/-! ## Runs of calls -/

inductive Call where
  | update (disk : Disk)
  | getNextSong (rand : Nat)

namespace ICollection

/-- The collection after a call that returns or throws; a call whose loop does not end has none. -/
def call (c : ICollection) : Call → Option ICollection
  | .update disk => (c.update disk).map (·.1)
  | .getNextSong rand => some (c.getNextSong rand).1

inductive New : ICollection → Prop
  | dir (aId aDescr aDir : Str) (aIsQ aDelete : Bool) :
    New (dir (.init aId aDescr aDir aIsQ aDelete))
  | file (aId aDescr aName : Str) : New (file (.init aId aDescr aName))

theorem numbered_call {c c' : ICollection} {a : Call} (hc : Numbered c.base.mNextUNID c.songs)
    (h : c.call a = some c') : Numbered c'.base.mNextUNID c'.songs := by
  cases a with
  | update disk =>
    obtain ⟨⟨d, r⟩, hd, rfl⟩ := Option.map_eq_some_iff.mp h
    cases c with
    | dir c =>
      obtain ⟨⟨d', r'⟩, hd', he⟩ := Option.map_eq_some_iff.mp hd
      cases he
      exact CollectionSonglistDir.numbered_update hc hd'
    | file c =>
      cases hd
      exact CollectionSonglistFile.numbered_update disk.file hc
  | getNextSong rand =>
    cases h
    cases c with
    | dir c => exact CollectionSonglist.numbered_getNextSong rand hc
    | file c => exact CollectionSonglist.numbered_getNextSong rand hc

theorem numbered_run {c s : ICollection} {calls : List Call} (hnew : c.New)
    (h : Machine.run call c calls = some s) : Numbered s.base.mNextUNID s.songs := by
  refine Machine.run_keeps (fun _ _ _ => numbered_call) ?_ h
  cases hnew with
  | dir => exact Numbered.nil _
  | file => exact Numbered.nil _

/-- **No two songs on a list share an id**, after any calls and however often the counter wrapped,
as long as there are ids enough for the list. -/
theorem unids_nodup {c s : ICollection} {calls : List Call} (hnew : c.New)
    (h : Machine.run call c calls = some s) (hlen : s.songs.length ≤ 2 ^ 32) :
    (s.songs.map (·.mUNID)).Nodup := by
  rw [numbered_run hnew h]
  exact nodup_window_bitVec _ hlen

/-- A queue that takes two songs, gives one away and takes a third one. -/
def threeCalls : List Call :=
  let disk (entries : List FileInfo) : Disk :=
    ⟨some entries, List.replicate 3 ⟨fun _ => none, some false⟩, ⟨.null, true, true, true, []⟩, 0⟩
  [.update (disk [⟨"/q/a.mp3".toList, false, 1⟩, ⟨"/q/b.mp3".toList, false, 2⟩]), .getNextSong 0,
    .update (disk [⟨"/q/b.mp3".toList, false, 2⟩, ⟨"/q/c.mp3".toList, false, 3⟩])]

theorem unids_nodup_threeCalls : ∃ s,
    Machine.run call (dir (.init "q".toList [] "/q".toList true false)) threeCalls = some s ∧
      s.songs.length = 2 ∧ (s.songs.map (·.mUNID)).Nodup := by
  have hnew : New (dir (.init "q".toList [] "/q".toList true false)) := New.dir _ _ _ _ _
  refine ⟨_, rfl, rfl, unids_nodup hnew (rfl : Machine.run call _ threeCalls = _) (by decide)⟩

end ICollection

end NetDJ.Engine
