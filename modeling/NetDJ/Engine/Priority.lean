import NetDJ.Lib.Traces
import NetDJ.Engine.PlayerThread

/-!
# `Collections.cpp`, `PlayerThread.cpp`: requests come first

The player asks the request collection before the share collection. What stands on its queue is
fetched in its order before anything else, whatever arrives and whatever is played in between.

* `fetched` : the songs that the player fetches, with their collections;
* `requests` : what stands on the request queue;
* `getNextSong_queue` : a call takes the front of the queue, or a song of another collection if there
  is nothing on the queue;
* `requests_first` : the next songs that are fetched are those on the queue.
-/

namespace NetDJ.Engine

/-- The songs on the queue of the first collection, with its position. -/
def queueOf (cols : List ICollection) : List (SongFile × Nat) :=
  match cols with
  | .dir c :: _ => c.mSonglist.map fun song => (song, 0)
  | _ => []

/-- The first collection is a queue. -/
def QueueFirst (cols : List ICollection) : Prop :=
  ∃ c rest, cols = .dir c :: rest ∧ c.mIsQueue = true

/-- `Update` of a queue only appends to it. -/
theorem CollectionSonglistDir.update_appends {c c' : CollectionSonglistDir}
    {list : Option (List FileInfo)} {passes : List Pass}
    {r : Except Failure (List (SongFile × Int))} (hq : c.mIsQueue = true)
    (h : c.update list passes = some (c', r)) :
    c'.mIsQueue = true ∧ c.mSonglist <+: c'.mSonglist := by
  rcases update_cases h with ⟨-, rfl, -⟩ | ⟨l, s, -, -, -, rfl⟩
  · exact ⟨hq, List.prefix_rfl⟩
  · obtain ⟨dated, -, hup⟩ := update_queue hq h
    exact ⟨hup.queue, _, hup.songs.symm⟩

theorem CollectionSonglistDir.nextSong_queue {c : CollectionSonglistDir} {c' : ICollection}
    {disk : Disk} {r : Except Failure SongFile} (hq : c.mIsQueue = true)
    (h : (ICollection.dir c).nextSong disk = some (c', r)) :
    ∃ d : CollectionSonglistDir, c' = .dir d ∧ d.mIsQueue = true ∧
      match r with
      | .ok song => ∃ new, c.mSonglist ++ new = song :: d.mSonglist
      | .error e => c.mSonglist <+: d.mSonglist ∧
        ((∃ what, e = .thrown (.emptyCollection what)) → d.mSonglist = []) := by
  obtain ⟨⟨c₁, u⟩, hu, he⟩ := Option.map_eq_some_iff.mp h
  obtain ⟨⟨d, u'⟩, hd, hmap⟩ := Option.map_eq_some_iff.mp hu
  obtain ⟨rfl, rfl⟩ := Prod.mk.inj hmap
  obtain ⟨hdq, new, hnew⟩ := update_appends hq hd
  cases u' with
  | error e =>
    cases he
    rcases update_cases hd with ⟨-, rfl, d', he⟩ | ⟨_, _, _, _, _, he⟩
    · cases he
      exact ⟨_, rfl, hdq, List.prefix_rfl, nofun⟩
    · cases he
  | ok dated =>
    have hnext : (ICollection.dir d).getNextSong disk.rand = (c', r) := he
    unfold ICollection.getNextSong at hnext
    dsimp only at hnext
    cases hl : d.mSonglist with
    | nil =>
      rw [CollectionSonglist.getNextSong_nil hl] at hnext
      cases hnext
      exact ⟨d, rfl, hdq, ⟨new, hnew⟩, fun _ => hl⟩
    | cons song rest =>
      rw [CollectionSonglist.getNextSong_front hdq hl] at hnext
      cases hnext
      exact ⟨_, rfl, hdq, new, hnew.trans hl⟩

/-- A call takes the front of the queue, or what it hands out finds the queue empty. -/
theorem getNextSong_queue {cols cols' : List ICollection} {disks : List Disk}
    {r : Except Failure (Option (SongFile × Nat))} (hfirst : QueueFirst cols)
    (h : getNextSong cols disks = some (cols', r)) : QueueFirst cols' ∧ ∃ new,
      queueOf cols ++ new = (r.toOption.join).toList ++ queueOf cols' := by
  obtain ⟨c, rest, rfl, hq⟩ := hfirst
  cases disks with
  | nil => cases h
  | cons disk disks =>
    unfold getNextSong at h
    split at h
    · cases h
    · next c' song hn =>
      cases h
      obtain ⟨d, rfl, hd, new, hnew⟩ := CollectionSonglistDir.nextSong_queue hq hn
      refine ⟨⟨d, rest, rfl, hd⟩, new.map fun song => (song, 0), ?_⟩
      show c.mSonglist.map _ ++ new.map _ = [(song, 0)] ++ d.mSonglist.map _
      rw [← List.map_append, hnew]
      rfl
    · next c' e hn =>
      obtain ⟨⟨cs, r'⟩, hr, he⟩ := Option.map_eq_some_iff.mp h
      cases he
      obtain ⟨d, rfl, hd, hkept, hempty⟩ := CollectionSonglistDir.nextSong_queue hq hn
      have hnil : d.mSonglist = [] := hempty ⟨e, rfl⟩
      rw [hnil, List.prefix_nil] at hkept
      refine ⟨⟨d, cs, rfl, hd⟩, (r'.map (Option.map fun x => (x.1, x.2 + 1))).toOption.join.toList, ?_⟩
      unfold queueOf
      dsimp only
      rw [hkept, hnil]
      exact (List.append_nil _).symm
    · next c' e hother hn =>
      cases h
      obtain ⟨d, rfl, hd, ⟨new, hnew⟩, -⟩ := CollectionSonglistDir.nextSong_queue hq hn
      refine ⟨⟨d, rest, rfl, hd⟩, new.map fun song => (song, 0), ?_⟩
      show c.mSonglist.map _ ++ new.map _ = [] ++ d.mSonglist.map _
      rw [← List.map_append, hnew]
      rfl

namespace PlayerThread

def fetched (s : PlayerThread) (_ : Act) (s' : PlayerThread) : List (SongFile × Nat) :=
  if s.pc = .fetch then s'.pc.current.toList else []

def requests (s : PlayerThread) : List (SongFile × Nat) := queueOf s.mCols

theorem thread_mCols {s s' : PlayerThread} {a : Answer} (hpc : s.pc ≠ .fetch)
    (h : s.thread a = some s') : s'.mCols = s.mCols := by
  unfold thread at h
  cases hpc' : s.pc <;> rw [hpc'] at h <;> dsimp only at h
  case fetch => exact absurd hpc' hpc
  case sleep | close | clearSkip =>
    cases h
    rfl
  case done => cases h
  all_goals split at h <;> cases h <;> rfl

theorem fetched_step (s : PlayerThread) (act : Act) (s' : PlayerThread) (hs : QueueFirst s.mCols)
    (h : s.step act = some s') : QueueFirst s'.mCols ∧
      ∃ new, s.requests ++ new = fetched s act s' ++ s'.requests := by
  by_cases hpc : s.pc = .fetch
  · unfold fetched
    rw [if_pos hpc]
    cases act with
    | stop | skip =>
      cases h
      exact ⟨hs, [], by rw [hpc]; exact List.append_nil _⟩
    | thread a =>
      unfold step thread at h
      rw [hpc] at h
      dsimp only at h
      split at h
      · cases h
      · next cols song col hg =>
        cases h
        exact getNextSong_queue hs hg
      · next cols hg =>
        cases h
        exact getNextSong_queue hs hg
      · next cols e hg =>
        cases h
        exact getNextSong_queue hs hg
      · cases h
  · unfold fetched requests
    rw [if_neg hpc]
    have hcols : s'.mCols = s.mCols := by
      cases act with
      | stop | skip =>
        cases h
        rfl
      | thread a => exact thread_mCols hpc h
    rw [hcols]
    exact ⟨hs, [], List.append_nil _⟩

theorem queueFirst_of_mainloop {REQUEST_DIR SHARE_DIR : Str} {request share : Disk}
    {s : PlayerThread} (h : mainloop REQUEST_DIR SHARE_DIR request share = some (.ok s)) :
    QueueFirst s.mCols := by
  unfold mainloop construct at h
  split at h
  · cases h
  · cases h
  · next req hreq =>
    obtain ⟨r, hr, he⟩ := Option.map_eq_some_iff.mp h
    cases r with
    | error e => cases he
    | ok shr =>
      cases he
      obtain ⟨⟨c, u⟩, hu, hc⟩ := Option.map_eq_some_iff.mp hreq
      obtain ⟨⟨d, u'⟩, hd, hmap⟩ := Option.map_eq_some_iff.mp hu
      obtain ⟨rfl, rfl⟩ := Prod.mk.inj hmap
      have hq := (CollectionSonglistDir.update_appends rfl hd).1
      cases u' with
      | error e => cases hc
      | ok dated =>
        cases hc
        exact ⟨d, [shr], rfl, hq⟩

/-- **From any moment on the songs that are fetched next are those on the request queue, in their
order, whatever arrives and whatever is called.** -/
theorem requests_first {REQUEST_DIR SHARE_DIR : Str} {request share : Disk} {s t t' : PlayerThread}
    {before after : List Act} (hmain : mainloop REQUEST_DIR SHARE_DIR request share = some (.ok s))
    (ht : Machine.run step s before = some t) (ht' : Machine.run step t after = some t') :
    (Machine.outputs step fetched t after).take t.requests.length =
      t.requests.take (Machine.outputs step fetched t after).length := by
  have hqueue : QueueFirst t.mCols := Machine.run_keeps
    (fun u act u' hu hstep => (fetched_step u act u' hu hstep).1) (queueFirst_of_mainloop hmain) ht
  exact Machine.take_outputs fetched_step hqueue ht'

/-- Two files in the request directory, and a share file of one line. -/
def twoRequests : Disk :=
  { oneLine false with
    entries := some [⟨"/req/a.mp3".toList, false, 10⟩, ⟨"/req/b.mp3".toList, false, 11⟩]
    passes := [⟨fun _ => none, some false⟩, ⟨fun _ => none, some false⟩] }

def threeSongs : List Act :=
  .thread emptySong ::
    (List.replicate 3 (List.replicate 7 (Act.thread
      { emptySong with disks := [{ oneLine false with entries := some [] }, oneLine false] }))).flatten

theorem requests_first_two : ∃ s t', mainloop "/req".toList "/shr".toList twoRequests
      (oneLine false) = some (.ok s) ∧ Machine.run step s threeSongs = some t' ∧
    (Machine.outputs step fetched s threeSongs).map (·.2) = [0, 0, 1] ∧
    (Machine.outputs step fetched s threeSongs).take s.requests.length =
      s.requests.take (Machine.outputs step fetched s threeSongs).length := by
  refine ⟨_, _, rfl, rfl, rfl, ?_⟩
  exact @requests_first "/req".toList "/shr".toList twoRequests (oneLine false) _ _ _ [] threeSongs
    rfl rfl rfl

end PlayerThread

end NetDJ.Engine
