import NetDJ.Lib.Machine
import NetDJ.Lib.Feed
import NetDJ.Engine.SonglistDir

/-!
# Runs of a queue directory

A `Collection_Songlist_Dir` in queue mode, whose directory holds anything at each call of `Update`,
is a feed below its time stamp.

* `Queue.step` : the calls of `Update` and `GetNextSong`, with the dates of the songs;
* `Queue.step_refines` : each call is a step of the feed, or leaves it;
* `Queue.good_of_run`, `Queue.date_order_and_once` : so the songs come in the order of their dates,
  and no file comes twice with one date.
-/

namespace NetDJ.Engine

/-- The entries of a directory, each of them listed once. -/
structure Listing where
  files : List FileInfo
  once : (files.map (·.filePath)).Nodup

/-- The collection, the songs on its list with the dates they were appended at, and the songs that
`GetNextSong` has returned. -/
structure Queue where
  dir : CollectionSonglistDir
  dated : List (SongFile × Int)
  returned : List (SongFile × Int)

namespace Queue

inductive Act where
  /-- `Update` with these entries, or without a directory. -/
  | update (list : Option Listing) (passes : List Pass)
  | getNextSong (rand : Nat)

def step (s : Queue) : Act → Option Queue
  | .update list passes =>
    (s.dir.update (list.map (·.files)) passes).map fun (dir, r) =>
      match r with
      | .ok new => { s with dir := dir, dated := s.dated ++ new }
      | .error _ => { s with dir := dir }
  | .getNextSong rand =>
    let (base, r) := s.dir.toCollectionSonglist.getNextSong rand
    let dir := { s.dir with toCollectionSonglist := base }
    match r, s.dated with
    | .ok sng, x :: rest => some ⟨dir, rest, s.returned ++ [(sng, x.2)]⟩
    | _, _ => some { s with dir := dir }

def start (aId aDescr aDir : Str) (aDelete : Bool) : Queue :=
  ⟨.init aId aDescr aDir true aDelete, [], []⟩

/-- The feed: its mark is the time stamp. -/
def feed (s : Queue) : Feed (SongFile × Int) QDateTime :=
  ⟨s.dir.mLastTimeStamp, s.dated, s.returned⟩

def name (x : SongFile × Int) : Str := x.1.mFilename

/-- The dates belong to the songs on the list, and the feed is ordered. -/
structure Good (s : Queue) : Prop where
  queue : s.dir.mIsQueue = true
  songs : s.dir.mSonglist = s.dated.map (·.1)
  ordered : s.feed.Ordered (.below QDateTime) dateOf name

theorem good_start (aId aDescr aDir : Str) (aDelete : Bool) :
    Good (start aId aDescr aDir aDelete) :=
  ⟨rfl, rfl, Feed.Ordered.start (.below QDateTime) dateOf name .null⟩

/-! ## One call -/

theorem mark_le_of_updated {c c' : CollectionSonglistDir} {passes : List Pass}
    {dated : List (FileInfo × Int)} {new : List (SongFile × Int)}
    (hu : c.Updated passes dated new c') : c.mLastTimeStamp ≤ c'.mLastTimeStamp := by
  rw [hu.mark]
  exact (high.le _ dated).trans (QDateTime.le_addSecs _)

theorem absorb_of_updated {s : Queue} {passes : List Pass} {dated : List (FileInfo × Int)}
    {new : List (SongFile × Int)} {dir : CollectionSonglistDir} (hs : Good s)
    (hu : s.dir.Updated passes dated new dir) (once : (dated.map (·.1.filePath)).Nodup) :
    Feed.Step (.below QDateTime) dateOf name s.feed
      (feed { s with dir := dir, dated := s.dated ++ new }) := by
  set taken := records dateOf s.dir.mLastTimeStamp dated with htaken
  have hpairs : new.map (fun x => (name x, dateOf x)) =
      taken.map fun y => (y.1.filePath, dateOf y) := by
    have h := congrArg (List.map (Prod.map id QDateTime.setTime_t)) hu.new_eq
    rwa [List.map_map, List.map_map] at h
  have hdates : new.map dateOf = taken.map dateOf := by
    have h := congrArg (List.map Prod.snd) hpairs
    rwa [List.map_map, List.map_map] at h
  have hnew : ∀ x ∈ new, ∃ y ∈ taken, dateOf y = dateOf x := fun x hx =>
    List.mem_map.mp (hdates ▸ List.mem_map_of_mem hx)
  have habove : ∀ x ∈ new, ¬ dateOf x < s.dir.mLastTimeStamp := by
    intro x hx
    obtain ⟨y, hy, he⟩ := hnew x hx
    rw [← he]
    exact not_lt.mpr (records.le_of_mem hy)
  have hsorted : new.Pairwise fun x y => dateOf x ≤ dateOf y := by
    rw [← List.pairwise_map (f := dateOf), hdates, List.pairwise_map]
    exact records.sorted _ dated
  refine .absorb s.feed new (s.dated ++ new) dir.mLastTimeStamp habove (fun x hx => ?_)
    (fun x hx => ?_) ?_ (List.Perm.refl _) (hs.ordered.append_sorted habove hsorted)
  · exact (hs.ordered.covered x hx).trans_le (mark_le_of_updated hu)
  · obtain ⟨y, hy, he⟩ := hnew x hx
    have hle : dateOf y ≤ high dateOf s.dir.mLastTimeStamp dated :=
      high.le_of_mem ((records.sublist _ dated).subset hy)
    show dateOf x < dir.mLastTimeStamp
    rw [← he, hu.mark]
    exact QDateTime.lt_addSecs_of_le hle
  · rw [hpairs]
    refine List.Nodup.of_map Prod.fst ?_
    rw [List.map_map]
    exact ((records.sublist _ dated).map _).nodup once

/-- What one call does to the queue. -/
structure Refines (s s' : Queue) : Prop where
  queue : s'.dir.mIsQueue = true
  songs : s'.dir.mSonglist = s'.dated.map (·.1)
  mark : s.dir.mLastTimeStamp ≤ s'.dir.mLastTimeStamp
  feed : Feed.Step (.below QDateTime) dateOf name s.feed s'.feed ∨ s' = s

theorem Good.refl {s : Queue} (hs : Good s) : Refines s s :=
  ⟨hs.queue, hs.songs, le_rfl, .inr rfl⟩

/-- Each call is a step of the feed, or changes nothing. -/
theorem step_refines {s s' : Queue} {a : Act} (hs : Good s) (h : s.step a = some s') :
    Refines s s' := by
  cases a with
  | update list passes =>
    obtain ⟨⟨dir, r⟩, hu, he⟩ := Option.map_eq_some_iff.mp h
    cases r with
    | error e =>
      cases he
      rcases CollectionSonglistDir.update_cases hu with ⟨-, rfl, -⟩ | ⟨_, _, _, _, _, he⟩
      · exact hs.refl
      · cases he
    | ok new =>
      cases he
      obtain ⟨dated, hl, hup⟩ := CollectionSonglistDir.update_queue hs.queue hu
      obtain ⟨list, rfl, hfiles⟩ := Option.map_eq_some_iff.mp hl
      have once := list.once
      rw [hfiles, List.map_map] at once
      refine ⟨hup.queue, ?_, mark_le_of_updated hup, .inl (absorb_of_updated hs hup once)⟩
      rw [hup.songs, hs.songs, List.map_append]
  | getNextSong rand =>
    cases hd : s.dated with
    | nil =>
      have hsongs : s.dir.mSonglist = [] := by rw [hs.songs, hd]; rfl
      rw [step, CollectionSonglist.getNextSong_nil hsongs] at h
      cases h
      exact hs.refl
    | cons x rest =>
      have hsongs : s.dir.mSonglist = x.1 :: rest.map (·.1) := by rw [hs.songs, hd]; rfl
      rw [step, CollectionSonglist.getNextSong_front hs.queue hsongs, hd] at h
      cases h
      exact ⟨hs.queue, rfl, le_rfl, .inl (.take s.feed x rest hd)⟩

theorem Good.step {s s' : Queue} {a : Act} (hs : Good s) (h : s.step a = some s') : Good s' := by
  have hr := step_refines hs h
  rcases hr.feed with hfeed | rfl
  · exact ⟨hr.queue, hr.songs, hfeed.ordered hs.ordered⟩
  · exact hs

/-! ## Runs -/

theorem good_of_run {s s' : Queue} {acts : List Act} (hs : Good s)
    (h : Machine.run step s acts = some s') :
    Good s' ∧ s.dir.mLastTimeStamp ≤ s'.dir.mLastTimeStamp := by
  refine Machine.run_keeps (I := fun t => Good t ∧ s.dir.mLastTimeStamp ≤ t.dir.mLastTimeStamp) ?_
    ⟨hs, le_rfl⟩ h
  intro t a t' ht hstep
  exact ⟨ht.1.step hstep, ht.2.trans (step_refines ht.1 hstep).mark⟩

/-- **A queue directory hands out its songs in the order of their dates, and none twice.** The time
stamp never goes back, lies above the date of every song appended so far, and a call of `Update`
without a directory changes nothing. -/
theorem date_order_and_once {aId aDescr aDir : Str} {aDelete : Bool} {acts more : List Act}
    {s t : Queue} (hs : Machine.run step (start aId aDescr aDir aDelete) acts = some s)
    (ht : Machine.run step s more = some t) :
    s.dir.mLastTimeStamp ≤ t.dir.mLastTimeStamp ∧
      (∀ x ∈ s.returned ++ s.dated, (x.2 : QDateTime) < s.dir.mLastTimeStamp) ∧
      s.dir.mSonglist = s.dated.map (·.1) ∧
      s.returned.Pairwise (fun x y => x.2 ≤ y.2) ∧
      ((s.returned ++ s.dated).map fun x => (x.1.mFilename, x.2)).Nodup ∧
      (∀ passes, ∃ e, s.dir.update none passes = some (s.dir, .error e)) ∧
      ∀ (list : Listing) (passes : List Pass),
        (∀ p ∈ passes, p.newSong.isSome ∧ ∀ fi ∈ list.files, (fDate fi p).isSome) →
        list.files.length ≤ passes.length →
        ∃ dir new, s.dir.update (some list.files) passes = some (dir, .ok new) := by
  have hgood := (good_of_run (good_start aId aDescr aDir aDelete) hs).1
  refine ⟨(good_of_run hgood ht).2, hgood.ordered.covered, hgood.songs, ?_, ?_,
    fun passes => ⟨_, rfl⟩, fun list passes => s.dir.update_returns⟩
  · exact hgood.ordered.taken_sorted.imp fun h => QDateTime.setTime_t_le.mp h
  · refine List.Nodup.of_map (Prod.map id QDateTime.setTime_t) ?_
    rw [List.map_map]
    exact hgood.ordered.once

def fileAndLink : Listing :=
  ⟨[⟨"/req/a.mp3".toList, false, 5⟩, ⟨"/req/b.mp3".toList, true, 1⟩], by decide⟩

def playFirst : List Act :=
  [.update (some fileAndLink) [⟨fun _ => some 7, some false⟩, ⟨fun _ => some 7, some true⟩],
    .getNextSong 0]

theorem date_order_and_once_fileAndLink : ∃ s t,
    Machine.run step (start "request".toList [] "/req".toList true) playFirst = some s ∧
      Machine.run step s [.update none []] = some t ∧
      s.returned.map (fun x => (x.1.mFilename, x.2)) = [("/req/a.mp3".toList, 5)] ∧
      s.dir.mLastTimeStamp ≤ t.dir.mLastTimeStamp ∧
      ((s.returned ++ s.dated).map fun x => (x.1.mFilename, x.2)).Nodup := by
  have h := @date_order_and_once "request".toList [] "/req".toList true playFirst
    [.update none []] _ _ rfl rfl
  exact ⟨_, _, rfl, rfl, rfl, h.1, h.2.2.2.2.1⟩

end Queue

end NetDJ.Engine
