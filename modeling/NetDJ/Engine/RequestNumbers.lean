import NetDJ.Engine.Priority
import NetDJ.Engine.Unids

/-!
# `CollectionBase::GetNewUNID`, `PlayerThread.cpp`: no request is lost on its way to the player

The request collection numbers its songs from 1 on when it puts them on the queue. The numbers of
the songs that the player has fetched from it, followed by those that wait, have no gap.

* `NumberedFromOne` : songs with the numbers 1, 2, 3, ...;
* `nextSong_numbered`, `getNextSong_numbered` : a call hands out the song with the next number;
* `PlayerThread.requests_numbered` : the songs of a run.
-/

namespace NetDJ.Engine

/-- The songs have the numbers 1, 2, 3, ..., and the counter stands at the last of them. -/
structure NumberedFromOne (mNextUNID : BitVec 32) (songs : List SongFile) : Prop where
  ids : songs.map (·.mUNID) = (List.range' 1 songs.length).map (BitVec.ofNat 32)
  next : mNextUNID = BitVec.ofNat 32 songs.length

theorem NumberedFromOne.snoc {next : BitVec 32} {songs : List SongFile}
    (h : NumberedFromOne next songs) {song : SongFile} (hid : song.mUNID = next + 1) :
    NumberedFromOne (next + 1) (songs ++ [song]) := by
  have hlast : next + 1 = BitVec.ofNat 32 (songs.length + 1) := by
    rw [h.next, BitVec.ofNat_add]
    rfl
  refine ⟨?_, ?_⟩
  · rw [List.map_append, h.ids, List.length_append, List.length_singleton,
      List.range'_1_concat, List.map_append, List.map_singleton, List.map_singleton, hid, hlast,
      Nat.add_comm 1]
  · rw [List.length_append, List.length_singleton, hlast]

namespace CollectionSonglistDir

theorem update_numbered {c c' : CollectionSonglistDir} {list : Option (List FileInfo)}
    {passes : List Pass} {r : Except Failure (List (SongFile × Int))} {given : List SongFile}
    (hq : c.mIsQueue = true) (hc : NumberedFromOne c.mNextUNID (given ++ c.mSonglist))
    (h : c.update list passes = some (c', r)) :
    NumberedFromOne c'.mNextUNID (given ++ c'.mSonglist) := by
  rcases update_cases h with ⟨-, rfl, -⟩ | ⟨l, s, -, hs, rfl, -⟩
  · exact hc
  · obtain ⟨hnext, hsongs⟩ := finish_target s
    rw [hnext, hsongs]
    apply scanLoop_keeps (I := fun s => NumberedFromOne s.col.mNextUNID (given ++ s.target)) _ _ hs
    · intro s fi date memory hs
      obtain ⟨hnext, song, hid, htarget⟩ := s.add_target fi date memory
      rw [hnext, htarget, ← List.append_assoc]
      exact hs.snoc hid
    · show NumberedFromOne c.mNextUNID (given ++ if c.mIsQueue then c.mSonglist else [])
      rw [if_pos hq]
      exact hc

/-- A song that is handed out has the number after those that have been. -/
theorem nextSong_numbered {c : CollectionSonglistDir} {c' : ICollection} {disk : Disk}
    {r : Except Failure SongFile} {given : List SongFile} (hq : c.mIsQueue = true)
    (hc : NumberedFromOne c.mNextUNID (given ++ c.mSonglist))
    (h : (ICollection.dir c).nextSong disk = some (c', r)) :
    ∃ d : CollectionSonglistDir, c' = .dir d ∧ d.mIsQueue = true ∧
      NumberedFromOne d.mNextUNID (given ++ r.toOption.toList ++ d.mSonglist) := by
  obtain ⟨⟨c₁, u⟩, hu, he⟩ := Option.map_eq_some_iff.mp h
  obtain ⟨⟨d, u'⟩, hd, hmap⟩ := Option.map_eq_some_iff.mp hu
  obtain ⟨rfl, rfl⟩ := Prod.mk.inj hmap
  have hdq := (update_appends hq hd).1
  have hnumbered := update_numbered hq hc hd
  cases u' with
  | error e =>
    cases he
    refine ⟨d, rfl, hdq, ?_⟩
    rw [Except.toOption, Option.toList_none, List.append_nil]
    exact hnumbered
  | ok dated =>
    have hnext : (ICollection.dir d).getNextSong disk.rand = (c', r) := he
    unfold ICollection.getNextSong at hnext
    dsimp only at hnext
    cases hl : d.mSonglist with
    | nil =>
      rw [CollectionSonglist.getNextSong_nil hl] at hnext
      cases hnext
      refine ⟨d, rfl, hdq, ?_⟩
      rw [Except.toOption, Option.toList_none, List.append_nil]
      exact hnumbered
    | cons song rest =>
      rw [CollectionSonglist.getNextSong_front hdq hl] at hnext
      cases hnext
      refine ⟨_, rfl, hdq, ?_⟩
      rw [hl, List.append_cons] at hnumbered
      exact hnumbered

end CollectionSonglistDir

/-- The songs that have been fetched from the first collection and those on its queue. -/
def QueueNumbered (given : List SongFile) (cols : List ICollection) : Prop :=
  ∃ c rest, cols = .dir c :: rest ∧ c.mIsQueue = true ∧
    NumberedFromOne c.mNextUNID (given ++ c.mSonglist)

def ofFirst (x : SongFile × Nat) : Option SongFile := if x.2 = 0 then some x.1 else none

theorem getNextSong_numbered {cols cols' : List ICollection} {disks : List Disk}
    {r : Except Failure (Option (SongFile × Nat))} {given : List SongFile}
    (hcols : QueueNumbered given cols) (h : getNextSong cols disks = some (cols', r)) :
    QueueNumbered (given ++ (r.toOption.join.toList.filterMap ofFirst)) cols' := by
  obtain ⟨c, rest, rfl, hq, hc⟩ := hcols
  cases disks with
  | nil => cases h
  | cons disk disks =>
    unfold getNextSong at h
    split at h
    · cases h
    · next c' song hn =>
      cases h
      obtain ⟨d, rfl, hd, hnumbered⟩ := CollectionSonglistDir.nextSong_numbered hq hc hn
      exact ⟨d, rest, rfl, hd, hnumbered⟩
    · next c' e hn =>
      obtain ⟨⟨cs, r'⟩, hr, he⟩ := Option.map_eq_some_iff.mp h
      cases he
      obtain ⟨d, rfl, hd, hnumbered⟩ := CollectionSonglistDir.nextSong_numbered hq hc hn
      refine ⟨d, cs, rfl, hd, ?_⟩
      -- A song of another collection has a position that is not 0.
      have hother : (r'.map (Option.map fun x => (x.1, x.2 + 1))).toOption.join.toList.filterMap
          ofFirst = [] := by
        cases r' with
        | error e => rfl
        | ok song => cases song <;> rfl
      rw [hother]
      exact hnumbered
    · next c' e hother hn =>
      cases h
      obtain ⟨d, rfl, hd, hnumbered⟩ := CollectionSonglistDir.nextSong_numbered hq hc hn
      exact ⟨d, rest, rfl, hd, hnumbered⟩

namespace PlayerThread

def fetchedRequest (s : PlayerThread) (act : Act) (s' : PlayerThread) : List SongFile :=
  (fetched s act s').filterMap ofFirst

theorem requested_step {s s' : PlayerThread} {act : Act} {given : List SongFile}
    (hs : QueueNumbered given s.mCols) (h : s.step act = some s') :
    QueueNumbered (given ++ fetchedRequest s act s') s'.mCols := by
  unfold fetchedRequest fetched
  by_cases hpc : s.pc = .fetch
  · rw [if_pos hpc]
    cases act with
    | stop | skip =>
      cases h
      rw [hpc]
      show QueueNumbered (given ++ []) _
      rw [List.append_nil]
      exact hs
    | thread a =>
      unfold step thread at h
      rw [hpc] at h
      dsimp only at h
      split at h
      · cases h
      · next cols song col hg =>
        cases h
        exact getNextSong_numbered hs hg
      · next cols hg =>
        cases h
        exact getNextSong_numbered hs hg
      · next cols e hg =>
        cases h
        exact getNextSong_numbered hs hg
      · cases h
  · rw [if_neg hpc, List.filterMap_nil, List.append_nil]
    cases act with
    | stop | skip =>
      cases h
      exact hs
    | thread a =>
      rw [thread_mCols hpc h]
      exact hs

theorem numbered_of_mainloop {REQUEST_DIR SHARE_DIR : Str} {request share : Disk}
    {s : PlayerThread} (h : mainloop REQUEST_DIR SHARE_DIR request share = some (.ok s)) :
    QueueNumbered [] s.mCols := by
  unfold mainloop construct at h
  split at h
  · cases h
  · cases h
  · next req hreq =>
    obtain ⟨r, hr, he⟩ := Option.map_eq_some_iff.mp h
    cases r with
    | error e => cases he
    | ok shr =>
      cases he
      obtain ⟨⟨c, u⟩, hu, hc⟩ := Option.map_eq_some_iff.mp hreq
      obtain ⟨⟨d, u'⟩, hd, hmap⟩ := Option.map_eq_some_iff.mp hu
      obtain ⟨rfl, rfl⟩ := Prod.mk.inj hmap
      cases u' with
      | error e => cases hc
      | ok dated =>
        cases hc
        refine ⟨d, [shr], rfl, (CollectionSonglistDir.update_appends rfl hd).1, ?_⟩
        exact CollectionSonglistDir.update_numbered rfl ⟨rfl, rfl⟩ hd

/-- **In every run the songs that have been fetched from the request collection, followed by those
that wait on its queue, have the numbers 1, 2, 3, ...** Each request is fetched once, and in the
order in which the requests have been put on the queue. -/
theorem requests_numbered {REQUEST_DIR SHARE_DIR : Str} {request share : Disk}
    {s t : PlayerThread} {acts : List Act}
    (hmain : mainloop REQUEST_DIR SHARE_DIR request share = some (.ok s))
    (h : Machine.run step s acts = some t) :
    ∃ n, (Machine.outputs step fetchedRequest s acts ++ t.requests.map (·.1)).map (·.mUNID) =
      (List.range' 1 n).map (BitVec.ofNat 32) := by
  have hrun : QueueNumbered (Machine.outputs step fetchedRequest s acts) t.mCols := by
    refine @Machine.run_induction _ _ _ s
      (fun acts t => QueueNumbered (Machine.outputs step fetchedRequest s acts) t.mCols)
      (numbered_of_mainloop hmain) ?_ acts t h
    intro before u act u' hu ih hstep
    rw [Machine.outputs_snoc hu hstep]
    exact requested_step ih hstep
  obtain ⟨c, rest, hcols, -, hnumbered⟩ := hrun
  have hqueue : t.requests.map (·.1) = c.mSonglist := by
    unfold requests
    rw [hcols, queueOf, List.map_map]
    exact List.map_id _
  rw [hqueue]
  exact ⟨_, hnumbered.ids⟩

/-- Two requests are fetched, and then a song of the share. -/
theorem requests_numbered_two : ∃ s t, mainloop "/req".toList "/shr".toList twoRequests
      (oneLine false) = some (.ok s) ∧ Machine.run step s threeSongs = some t ∧
    (Machine.outputs step fetchedRequest s threeSongs).map (·.mUNID) = [1, 2] ∧
    ∃ n, (Machine.outputs step fetchedRequest s threeSongs ++
      t.requests.map (·.1)).map (·.mUNID) = (List.range' 1 n).map (BitVec.ofNat 32) := by
  refine ⟨_, _, rfl, rfl, rfl, ?_⟩
  exact @requests_numbered "/req".toList "/shr".toList twoRequests (oneLine false) _ _ threeSongs
    rfl rfl

end PlayerThread

end NetDJ.Engine
