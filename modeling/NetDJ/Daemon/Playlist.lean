import Mathlib.Algebra.Order.Ring.Int
import NetDJ.Lib.Machine
import NetDJ.Lib.Feed
import NetDJ.Daemon.Directory

/-!
# Runs of a playlist directory

A playlist in directory mode, whose directory holds anything at each call, is a feed up to its
`lastupdate`.

* `Snapshot` : a directory at the time of a call;
* `Playlist.step` : the calls of `Update`, `Empty`, `GetSong`, `GetSize` and `GetEntries`;
* `Playlist.step_cases` : a call scans and may hand out the front of the list;
* `Playlist.Good`, `Playlist.good_of_run` : the list is a feed, and its ids count up;
* `Playlist.order_and_once` : so the songs come in the order of their ctimes, none comes twice, and
  their ids differ.
-/

namespace NetDJ.Daemon

/-- A directory as a call finds it: `readdir` lists each name once, the paths have at least four
characters, and no ctime lies after the time that is read at the end. -/
structure Snapshot (dirname : Str) where
  names : List Str
  stat : Str → Option Stat
  time : Int
  sort : Sorter
  memory : File
  once : names.Nodup
  long : ∀ n ∈ names, 4 ≤ (dirname ++ n).length
  past : ∀ n ∈ names, ∀ st, stat (dirname ++ n) = some st → st.st_ctime ≤ time

def Snapshot.os {dirname : Str} (o : Snapshot dirname) : Os :=
  ⟨some o.names, o.stat, none, o.time, o.sort, o.memory⟩

/-- The directory, the time of the last call, and the songs that `GetSong` has returned. -/
structure Playlist where
  dir : Directory
  clock : Int
  returned : List File

namespace Playlist

inductive Op (dirname : Str) where
  | call (c : Call) (o : Snapshot dirname)
  | getEntries (max : Nat)

variable {dirname : Str}

def Op.snapshot : Op dirname → Option (Snapshot dirname)
  | call _ o => some o
  | getEntries _ => none

def step (s : Playlist) : Op dirname → Option Playlist
  | .call c o =>
    if s.clock ≤ o.time then
      match c.run s.dir o.os with
      | .ok (d, song) => some ⟨d, o.time, s.returned ++ song.toList⟩
      | .error _ => none
    else none
  | .getEntries _ => some s

/-! ## What a call does -/

/-- A playlist that reads the directory `dirname`. -/
structure Reads (dirname : Str) (d : Directory) : Prop where
  playlist : d.playlist = true
  fromfile : d.fromfile = false
  dirname_eq : d.dirname = dirname
  dirname_ne : dirname ≠ []

theorem Reads.changed {d : Directory} (hd : Reads dirname d) (id : BitVec 32) (time : Int)
    (l : List File) :
    Reads dirname { d with nextfileid := id, lastupdate := time, list := l } :=
  ⟨hd.playlist, hd.fromfile, hd.dirname_eq, hd.dirname_ne⟩

theorem Reads.scanned {d : Directory} (hd : Reads dirname d) (os : Os) (names : List Str) :
    Reads dirname (d.scanned os names) :=
  hd.changed _ _ _

def scan (s : Playlist) (o : Snapshot dirname) : Playlist :=
  ⟨s.dir.scanned o.os o.names, o.time, s.returned⟩

/-- The state after a song, if any, has been taken off the list. -/
def take (s : Playlist) (song : Option File) (rest : List File) : Playlist :=
  ⟨{ s.dir with list := rest }, s.clock, s.returned ++ song.toList⟩

theorem update_eq {s : Playlist} (hs : Reads dirname s.dir) (o : Snapshot dirname) :
    s.dir.update o.os = .ok (s.scan o).dir := by
  refine Directory.update_playlist hs.playlist hs.fromfile ?_ rfl fun n hn _ _ _ => ?_
  · rw [hs.dirname_eq]
    exact hs.dirname_ne
  · rw [hs.dirname_eq]
    exact o.long n hn

theorem step_call {s : Playlist} (hs : Reads dirname s.dir) (c : Call) {o : Snapshot dirname}
    (hc : s.clock ≤ o.time) : ∃ song rest, song.toList ++ rest = (s.scan o).dir.list ∧
      s.step (.call c o) = some ((s.scan o).take song rest) := by
  obtain ⟨song, rest, hl, h⟩ := c.run_eq (hs.scanned _ _).playlist (update_eq hs o)
  refine ⟨song, rest, hl, ?_⟩
  rw [step, if_pos hc, h]
  rfl

theorem step_cases {s s' : Playlist} {op : Op dirname} (hs : Reads dirname s.dir)
    (h : s.step op = some s') : s' = s ∨
      ∃ o, op.snapshot = some o ∧ s.clock ≤ o.time ∧ ∃ song rest,
        song.toList ++ rest = (s.scan o).dir.list ∧ s' = (s.scan o).take song rest := by
  cases op with
  | getEntries max =>
    cases h
    exact .inl rfl
  | call c o =>
    by_cases hc : s.clock ≤ o.time
    · obtain ⟨song, rest, hl, hstep⟩ := step_call hs c hc
      rw [hstep] at h
      exact .inr ⟨o, rfl, hc, song, rest, hl, (Option.some.inj h).symm⟩
    · rw [step, if_neg hc] at h
      cases h

/-! ## The feed -/

def ctime (f : File) : Int := f.stat_buf.st_ctime

/-- The feed: its mark is `lastupdate`. -/
def feed (s : Playlist) : Feed File Int := ⟨s.dir.lastupdate, s.dir.list, s.returned⟩

/-- All entries made so far. -/
def entries (s : Playlist) : List File := s.returned ++ s.dir.list

/-- The list is a feed of the past, and the ids of all entries count up. -/
structure Good (dirname : Str) (s : Playlist) : Prop where
  reads : Reads dirname s.dir
  ordered : s.feed.Ordered (.upTo Int) ctime File.name
  past : ∀ f ∈ s.entries, ctime f ≤ s.clock
  valid : ∀ f ∈ s.dir.list, f.stat_valid = true
  ids : (s.entries.map File.id).Perm ((List.range s.entries.length).map (BitVec.ofNat 32))
  next : s.dir.nextfileid = BitVec.ofNat 32 s.entries.length

def start (d : Directory) (clock : Int) : Playlist :=
  ⟨{ d with list := [], nextfileid := 0 }, clock, []⟩

theorem good_start {d : Directory} (hd : Reads dirname d) (clock : Int) :
    Good dirname (start d clock) :=
  ⟨hd.changed _ _ _, Feed.Ordered.start _ _ _ _,
    nofun, nofun, List.Perm.refl _, rfl⟩

theorem entries_scan (s : Playlist) (o : Snapshot dirname) :
    (s.scan o).entries.Perm
      (s.entries ++ numbered s.dir.nextfileid (s.dir.found o.stat o.names)) := by
  unfold entries
  rw [List.append_assoc]
  exact (o.sort.perm _).append_left s.returned

theorem mem_list_scan {s : Playlist} {o : Snapshot dirname} {f : File} :
    f ∈ (s.scan o).dir.list ↔
      f ∈ s.dir.list ∨ f ∈ numbered s.dir.nextfileid (s.dir.found o.stat o.names) :=
  Directory.mem_list_scanned

theorem mem_found {s : Playlist} (hs : Reads dirname s.dir) {o : Snapshot dirname} {x : Str × Stat}
    (hx : x ∈ s.dir.found o.stat o.names) : ∃ n ∈ o.names, x.1 = dirname ++ n ∧
      regular o.stat x.1 = some x.2 ∧ s.dir.lastupdate < x.2.st_ctime ∧
      hasMp3Ending x.1 = true := by
  obtain ⟨n, hn, hnew⟩ := List.mem_filterMap.mp hx
  obtain ⟨hpath, hreg, hlt, hmp3⟩ := newSong_eq_some.mp hnew
  rw [hs.dirname_eq] at hpath hreg hmp3
  exact ⟨n, hn, hpath, hpath ▸ hreg, hlt, hpath ▸ hmp3⟩

theorem length_entries_scan (s : Playlist) (o : Snapshot dirname) :
    (s.scan o).entries.length = s.entries.length + (s.dir.found o.stat o.names).length := by
  rw [(entries_scan s o).length_eq, List.length_append, length_numbered]

theorem Good.absorb {s : Playlist} (hs : Good dirname s) {o : Snapshot dirname}
    (hc : s.clock ≤ o.time) : Feed.Step (.upTo Int) ctime File.name s.feed (s.scan o).feed := by
  set batch := numbered s.dir.nextfileid (s.dir.found o.stat o.names) with hbatch
  have hpairs : batch.map (fun f => (f.name, f.stat_buf)) = s.dir.found o.stat o.names :=
    map_numbered _ _
  have hnew : ∀ f ∈ batch, ∃ n ∈ o.names, f.name = dirname ++ n ∧
      regular o.stat f.name = some f.stat_buf ∧ s.dir.lastupdate < ctime f := by
    intro f hf
    obtain ⟨n, hn, hname, hreg, hlt, -⟩ :=
      mem_found hs.reads (hpairs ▸ List.mem_map_of_mem hf : (f.name, f.stat_buf) ∈ _)
    exact ⟨n, hn, hname, hreg, hlt⟩
  refine .absorb s.feed batch _ o.time (fun f hf => ?_) (fun f hf => ?_) (fun f hf => ?_) ?_
    (o.sort.perm _) (o.sort.sorted _ ?_)
  · obtain ⟨-, -, -, -, hlt⟩ := hnew f hf
    exact not_le.mpr hlt
  · exact (hs.past f hf).trans hc
  · obtain ⟨n, hn, hname, hreg, -⟩ := hnew f hf
    exact o.past n hn _ (hname ▸ stat_of_regular hreg)
  · have hnames : batch.map File.name = (s.dir.found o.stat o.names).map (·.1) := by
      rw [← hpairs, List.map_map]
      rfl
    refine List.Nodup.of_map Prod.fst ?_
    rw [List.map_map]
    exact hnames ▸ Directory.nodup_found s.dir o.stat o.once
  · intro f hf
    rcases List.mem_append.mp hf with hf | hf
    · exact hs.valid f hf
    · exact valid_of_mem_numbered hf

theorem Good.scan {s : Playlist} (hs : Good dirname s) {o : Snapshot dirname}
    (hc : s.clock ≤ o.time) : Good dirname (s.scan o) := by
  have hfeed := (hs.absorb hc).ordered hs.ordered
  refine ⟨hs.reads.scanned _ _, hfeed, fun f hf => hfeed.covered f hf, fun f hf => ?_, ?_, ?_⟩
  · rcases mem_list_scan.mp hf with hf | hf
    · exact hs.valid f hf
    · exact valid_of_mem_numbered hf
  · refine ((entries_scan s o).map File.id).trans ?_
    rw [length_entries_scan, List.range_add, List.map_append, List.map_append, ids_numbered,
      hs.next, List.map_map]
    refine hs.ids.append (List.Perm.of_eq (List.map_congr_left fun k _ => ?_))
    exact (BitVec.ofNat_add _ _).symm
  · rw [length_entries_scan, BitVec.ofNat_add, ← hs.next]
    rfl

theorem entries_take {s : Playlist} {song : Option File} {rest : List File}
    (hl : song.toList ++ rest = s.dir.list) : (s.take song rest).entries = s.entries := by
  show (s.returned ++ song.toList) ++ rest = s.returned ++ s.dir.list
  rw [List.append_assoc, hl]

theorem Good.take {s : Playlist} (hs : Good dirname s) {song : Option File} {rest : List File}
    (hl : song.toList ++ rest = s.dir.list) : Good dirname (s.take song rest) := by
  have he := entries_take hl
  refine ⟨hs.reads.changed _ _ _,
    ?_, he ▸ hs.past, fun g hg => hs.valid g (hl ▸ List.mem_append_right _ hg), ?_, ?_⟩
  · cases song with
    | none =>
      obtain rfl : rest = s.dir.list := hl
      rw [Playlist.take, Option.toList_none, List.append_nil]
      exact hs.ordered
    | some f => exact (Feed.Step.take s.feed f rest hl.symm).ordered hs.ordered
  · rw [he]
    exact hs.ids
  · rw [he]
    exact hs.next

theorem Good.step {s s' : Playlist} {op : Op dirname} (hs : Good dirname s)
    (h : s.step op = some s') : Good dirname s' := by
  obtain rfl | ⟨o, -, hc, song, rest, hl, rfl⟩ := step_cases hs.reads h
  · exact hs
  · exact (hs.scan hc).take hl

theorem Good.front_le {s : Playlist} (hs : Good dirname s) {front : File} {rest : List File}
    (hl : s.dir.list = front :: rest) : ∀ f ∈ s.dir.list, ctime front ≤ ctime f := by
  have hsorted : s.dir.list.Pairwise fun x y => ctime x ≤ ctime y := hs.ordered.queue_sorted
  rw [hl, List.pairwise_cons] at hsorted
  rw [hl]
  exact List.forall_mem_cons.mpr ⟨le_rfl, hsorted.1⟩

/-! ## Runs -/

theorem good_of_run {s s' : Playlist} {ops : List (Op dirname)} (hs : Good dirname s)
    (h : Machine.run step s ops = some s') : Good dirname s' :=
  Machine.run_keeps (fun _ _ _ ht hstep => ht.step hstep) hs h

/-- **A playlist hands out its songs in the order of their ctimes, none twice, and with ids that
differ.** Every call returns. -/
theorem order_and_once {d : Directory} (hd : Reads dirname d) {clock : Int} {s : Playlist}
    {ops : List (Op dirname)} (h : Machine.run step (start d clock) ops = some s) :
    s.returned.Pairwise (fun f g => f.stat_buf.st_ctime ≤ g.stat_buf.st_ctime) ∧
      ((s.returned ++ s.dir.list).map fun f => (f.name, f.stat_buf.st_ctime)).Nodup ∧
      ((s.returned ++ s.dir.list).length < 2 ^ 31 →
        ((s.returned ++ s.dir.list).map File.id).Nodup) ∧
      ∀ (c : Call) (o : Snapshot dirname), s.clock ≤ o.time →
        ∃ t, s.step (.call c o) = some t := by
  have hs := good_of_run (good_start hd clock) h
  refine ⟨hs.ordered.taken_sorted, hs.ordered.once, fun hlen => ?_, fun c o hc => ?_⟩
  · refine hs.ids.nodup_iff.mpr (List.Nodup.map_on (fun j hj k hk he => ?_) List.nodup_range)
    rw [List.mem_range] at hj hk
    have hlt : s.entries.length < 2 ^ 32 := Nat.lt_trans hlen (by decide)
    have := congrArg BitVec.toNat he
    rwa [BitVec.toNat_ofNat, BitVec.toNat_ofNat, Nat.mod_eq_of_lt (hj.trans hlt),
      Nat.mod_eq_of_lt (hk.trans hlt)] at this
  · obtain ⟨song, rest, -, h⟩ := step_call hs.reads c hc
    exact ⟨_, h⟩

def twoSongs : Snapshot "/q/".toList where
  names := ["b.mp3".toList, "a.MP3".toList]
  stat path := if path = "/q/b.mp3".toList then some ⟨false, 5⟩ else some ⟨false, 3⟩
  time := 7
  sort := .insertion
  memory := ⟨0, [], .zero, false⟩
  once := by decide
  long := by decide
  past := by
    intro n _ st h
    split at h <;> cases h <;> decide

def queue : Directory :=
  ⟨"cache".toList, "Cache-dir".toList, "/q/".toList, 0, 0, [], true, false⟩

theorem order_and_once_twoSongs : ∃ s,
    Machine.run step (start queue 0) [.call (.getSong 0) twoSongs, .call .getSize twoSongs] =
        some s ∧
      s.returned.map File.name = ["/q/a.MP3".toList] ∧
      s.dir.list.map File.name = ["/q/b.mp3".toList] ∧
      ((s.returned ++ s.dir.list).map fun f => (f.name, f.stat_buf.st_ctime)).Nodup := by
  have hq : Reads "/q/".toList queue := ⟨rfl, rfl, rfl, by decide⟩
  have h := @order_and_once _ queue hq 0 _
    [.call (.getSong 0) twoSongs, .call .getSize twoSongs] rfl
  exact ⟨_, rfl, by decide, by decide, h.2.1⟩

end Playlist

end NetDJ.Daemon
