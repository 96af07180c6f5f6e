import NetDJ.Lib.Machine
import NetDJ.Lib.Paths
import NetDJ.Daemon.Directory
import NetDJ.Daemon.CurrentSong

/-!
# `main.cc`: the player thread

* `FileSystem` : `stat` and `unlink`, of which the first follows links;
* `Player.round` : one round of the main loop, up to the moment when the song is opened;
* `Player.step` : rounds, and renames of the current song by the console;
* `Player.Follows`, `Player.follows_of_run` : the current song is what the calls so far made of it;
* `Player.kept_iff` : a song is still there when it is opened unless the song before the current one
  was to be deleted and the path of the song goes by the entry that is removed with it.
-/

namespace NetDJ.Daemon

/-! ## The file system -/

/-- Directories by their numbers and with their ctimes, files with theirs. -/
structure FileSystem where
  tree : Paths.Tree Nat Str Int
  cwd : Nat
  ctime : Nat → Int

namespace FileSystem

/-- A lookup follows no more links. -/
def maxLinks : Nat := 40

variable (files : FileSystem)

/-- What a path leads to, and the entries it goes by. -/
def lookup (path : Str) : Option (List (Nat × Str) × Paths.Node Nat Str Int) :=
  if cStr path = [] then none else files.tree.resolve maxLinks files.cwd (.parse (cStr path))

def stat (path : Str) : Option Stat :=
  match files.lookup path with
  | some (_, .file st_ctime) => some ⟨false, st_ctime⟩
  | some (_, .dir d) => some ⟨true, files.ctime d⟩
  | some (_, .link _) | none => none

/-- The entry that `unlink(path)` removes. `may` says of which paths the process may remove the
entry. -/
def unlinked (may : Str → Bool) (path : Str) : Option (Nat × Str) :=
  if may path then
    (files.tree.place maxLinks files.cwd (.parse (cStr path))).filter files.tree.removable
  else none

/-- The ctimes are not followed: behind `unlink` only what is there counts. -/
def unlink (may : Str → Bool) (path : Str) : FileSystem :=
  match files.unlinked may path with
  | some e => { files with tree := files.tree.remove e }
  | none => files

/-- The lookup of a path goes by the entry. -/
def GoesBy (path : Str) (e : Nat × Str) : Prop := ∃ r ∈ files.lookup path, e ∈ r.1

end FileSystem

/-! ## The main loop -/

/-- What a round meets: for each list what its `Update` finds and the number `get_rand` gives, the
file system when the song is looked at, which paths may be unlinked, the configuration, and the
memory of the empty `File` of `Clear`. -/
structure Round where
  lists : Nat → Os × Nat
  files : FileSystem
  may : Str → Bool
  DELETE_PLAYED : Bool
  memory : File

def Round.stat (r : Round) : Str → Option Stat := r.files.stat

/-- The first list that has a song: the song, and the number of the list. -/
def firstSong (oss : Nat → Os × Nat) : Nat → List Directory →
    Except Abort (List Directory × Option (File × Nat))
  | _, [] => .ok ([], none)
  | i, d :: lists =>
    match d.getSong (oss i).1 (oss i).2 with
    | .error a => .error a
    | .ok (d, some fobj) => .ok (d :: lists, some (fobj, i))
    | .ok (d, none) => (firstSong oss (i + 1) lists).map fun (lists, r) => (d :: lists, r)

/-- The `switch` on the number of the list. -/
def deleteIt (DELETE_PLAYED : Bool) : Nat → Bool
  | 0 => true
  | 1 => DELETE_PLAYED
  | _ => false

inductive Outcome where
  /-- No list has a song; the current song is cleared. -/
  | noFiles
  /-- The file is gone, or is the current song. -/
  | passed
  /-- `Set` has been called on the song, which is opened next; this is what `stat` finds then. -/
  | opens (fobj : File) (stat : Str → Option Stat)

/-- The three lists, the current song, and the calls made on it. -/
structure Player where
  lists : List Directory
  current : SongRun
  calls : List SongCall

namespace Player

def start (request cache share : Directory) (memory : File) : Player :=
  ⟨[request, cache, share], SongRun.init memory, []⟩

def call (s : Player) (c : SongCall) : Player :=
  { s with current := s.current.call c, calls := s.calls ++ [c] }

/-- One round of the main loop. -/
def round (s : Player) (r : Round) : Except Abort (Player × Outcome) :=
  match firstSong r.lists 0 s.lists with
  | .error a => .error a
  | .ok (lists, none) => .ok ({ s with lists := lists }.call (.clear r.memory), .noFiles)
  | .ok (lists, some (song, i)) =>
    let s := { s with lists := lists }
    let (fobj, found) := song.exists_ r.stat
    if found ∧ fobj.name ≠ s.current.song.currfile.name then
      let del := deleteIt r.DELETE_PLAYED i
      let files := match (s.current.song.internalSet fobj del).2 with
        | some prev => r.files.unlink r.may prev.name
        | none => r.files
      .ok (s.call (.set fobj del), .opens fobj files.stat)
    else .ok (s, .passed)

inductive Act where
  | round (r : Round)
  /-- `RenameCurrent` from a command of the console. -/
  | rename (newpath : Str) (del renamed : Bool)

def step (s : Player) : Act → Option Player
  | .round r => (s.round r).toOption.map (·.1)
  | .rename newpath del renamed => some (s.call (.renameCurrent newpath del renamed))

/-! ## The calls on the current song -/

/-- The current song is what the calls made of it. -/
def Follows (memory : File) (s : Player) : Prop := s.current = SongRun.runCalls memory s.calls

theorem Follows.call {memory : File} {s : Player} (hs : Follows memory s) (c : SongCall) :
    Follows memory (s.call c) := by
  show s.current.call c = SongRun.runCalls memory (s.calls ++ [c])
  rw [hs, SongRun.runCalls, SongRun.runCalls, List.foldl_append]
  rfl

theorem round_cases {s s' : Player} {r : Round} {out : Outcome} (h : s.round r = .ok (s', out)) :
    ∃ lists, s' = { s with lists := lists } ∨ ∃ c, s' = { s with lists := lists }.call c := by
  unfold round at h
  split at h
  · cases h
  · cases h
    exact ⟨_, .inr ⟨_, rfl⟩⟩
  · dsimp only at h
    split at h <;> cases h
    · exact ⟨_, .inr ⟨_, rfl⟩⟩
    · exact ⟨_, .inl rfl⟩

theorem Follows.step {memory : File} {s s' : Player} {a : Act} (hs : Follows memory s)
    (h : s.step a = some s') : Follows memory s' := by
  cases a with
  | rename newpath del renamed =>
    cases h
    exact hs.call _
  | round r =>
    obtain ⟨⟨t, out⟩, hr, rfl⟩ := Option.map_eq_some_iff.mp h
    obtain ⟨lists, rfl | ⟨c, rfl⟩⟩ := round_cases (toOption_eq_some.mp hr)
    · exact hs
    · exact Follows.call (s := { s with lists := lists }) hs c

theorem follows_of_run {memory : File} {s s' : Player} {acts : List Act} (hs : Follows memory s)
    (h : Machine.run step s acts = some s') : Follows memory s' :=
  Machine.run_keeps (fun _ _ _ ht hstep => ht.step hstep) hs h

/-! ## What is there when a song is opened -/

section Unlink
variable {files : FileSystem} {may : Str → Bool} {p q : Str} {e : Nat × Str}

theorem lookup_unlink (h : files.unlinked may p = some e) (q : Str) :
    (files.unlink may p).lookup q = Paths.Tree.without e (files.lookup q) := by
  unfold FileSystem.unlink
  rw [h]
  unfold FileSystem.lookup
  split
  · rfl
  · exact files.tree.resolve_remove e _ _ _

theorem stat_unlink_of_goesBy (h : files.unlinked may p = some e) (hq : files.GoesBy q e) :
    (files.unlink may p).stat q = none := by
  obtain ⟨r, hr, hmem⟩ := hq
  unfold FileSystem.stat
  rw [lookup_unlink h, Option.mem_def.mp hr, Paths.Tree.without_of_mem hmem]

theorem stat_unlink_of_not (h : ∀ e ∈ files.unlinked may p, ¬ files.GoesBy q e) :
    (files.unlink may p).stat q = files.stat q := by
  cases he : files.unlinked may p with
  | none =>
    unfold FileSystem.unlink
    rw [he]
  | some e =>
    have hlookup : (files.unlink may p).lookup q = files.lookup q := by
      rw [lookup_unlink he]
      cases hq : files.lookup q with
      | none => rfl
      | some r => exact Paths.Tree.without_of_notMem fun hmem => h e he ⟨r, hq, hmem⟩
    have hctime : (files.unlink may p).ctime = files.ctime := by
      unfold FileSystem.unlink
      rw [he]
    unfold FileSystem.stat
    rw [hlookup, hctime]

/-- After `unlink` a path is there unless it goes by the entry that is removed. -/
theorem regular_unlink : (regular (files.unlink may p).stat q).isSome ↔
    (regular files.stat q).isSome ∧ ∀ e ∈ files.unlinked may p, ¬ files.GoesBy q e := by
  by_cases hgoes : ∃ e ∈ files.unlinked may p, files.GoesBy q e
  · obtain ⟨e, he, hq⟩ := hgoes
    refine iff_of_false ?_ fun h => h.2 e he hq
    simp [regular, stat_unlink_of_goesBy he hq]
  · push Not at hgoes
    rw [regular, stat_unlink_of_not hgoes]
    exact (and_iff_left hgoes).symm

end Unlink

theorem round_opens {s s' : Player} {r : Round} {fobj : File} {stat : Str → Option Stat}
    (h : s.round r = .ok (s', .opens fobj stat)) : (regular r.stat fobj.name).isSome ∧
      stat = (if s.current.song.prevdelete then
        r.files.unlink r.may s.current.song.prevfile.name else r.files).stat := by
  unfold round at h
  split at h
  · cases h
  · cases h
  · next lists song i _ =>
    dsimp only at h
    split at h
    · next hfound =>
      cases h
      refine ⟨?_, ?_⟩
      · obtain ⟨hname, hok⟩ := @File.updateStat_eq r.stat song
        rw [File.exists_, hname, ← hok]
        exact hfound.1
      · show (match (if s.current.song.prevdelete then some s.current.song.prevfile else none) with
          | some prev => r.files.unlink r.may prev.name
          | none => r.files).stat = _
        cases s.current.song.prevdelete <;> rfl
    · cases h

/-- **A song that exists when `Set` is called on it is still there when it is opened, unless the
song before the current one was to be deleted, could be, and the path of the song goes by the entry
that is removed: it is the same path, another one to the same entry, or one with a link to it.** -/
theorem kept_iff {request cache share : Directory} {memory : File} {acts : List Act} {s : Player}
    (h : Machine.run step (start request cache share memory) acts = some s) {r : Round}
    {s' : Player} {fobj : File} {stat : Str → Option Stat}
    (hr : s.round r = .ok (s', .opens fobj stat)) :
    (regular stat fobj.name).isSome ↔ ¬ ∃ t, ((turns s.calls).drop 1).head? = some t ∧
      t.flag = true ∧ ∃ e ∈ r.files.unlinked r.may t.name, r.files.GoesBy fobj.name e := by
  have hprev := (tracks_runCalls memory s.calls).prev
  rw [← (follows_of_run (rfl : Follows memory (start request cache share memory)) h)] at hprev
  have hname := congrArg Turn.name hprev
  have hflag := congrArg Turn.flag hprev
  dsimp only at hname hflag
  obtain ⟨hthere, rfl⟩ := round_opens hr
  rw [Round.stat] at hthere
  rw [hflag, hname]
  cases hd : ((turns s.calls).drop 1).head? with
  | none => simpa [Turn.none] using hthere
  | some t =>
    cases hf : t.flag with
    | false => simpa [hf] using hthere
    | true =>
      rw [Option.getD_some, if_pos hf, regular_unlink, and_iff_right hthere]
      simp [hf]

def twoFiles (a b : Int) (path : Str) : Option Stat :=
  if path = "/q/a.mp3".toList then some ⟨false, a⟩
  else if path = "/q/b.mp3".toList then some ⟨false, b⟩
  else none

/-- The directory "/q/" of these files, and "/c/" with a link "x.mp3" to the first one. -/
def twoDirs (a b : Int) : FileSystem where
  tree :=
    { root := 0
      parent := fun _ => 0
      entries := fun d n =>
        if d = 0 ∧ n = "q".toList then some (.dir 1)
        else if d = 0 ∧ n = "c".toList then some (.dir 2)
        else if d = 1 ∧ n = "a.mp3".toList then some (.file a)
        else if d = 1 ∧ n = "b.mp3".toList then some (.file b)
        else if d = 2 ∧ n = "x.mp3".toList then some (.link (.parse "/q/a.mp3".toList))
        else none }
  cwd := 0
  ctime _ := 0

/-- With a file its links are gone, but not with a link the file. -/
example : let may : Str → Bool := fun _ => true
    regular ((twoDirs 1 2).unlink may "/q/a.mp3".toList).stat "/c/x.mp3".toList = none ∧
      regular ((twoDirs 1 2).unlink may "/c/x.mp3".toList).stat "/q/a.mp3".toList =
        some ⟨false, 1⟩ := by decide

def requests (names : List Str) (a b time : Int) : Round where
  lists _ := (⟨some names, twoFiles a b, none, time, .insertion, ⟨0, [], .zero, false⟩⟩, 0)
  files := twoDirs a b
  may _ := true
  DELETE_PLAYED := false
  memory := ⟨0, [], .zero, false⟩

/-- The three lists, the requests coming from "/q/". -/
def requestsFrom (dirname : Str) : Player :=
  let request : Directory :=
    ⟨"request".toList, "Requested songs".toList, dirname, 0, 0, [], true, false⟩
  start request ⟨"cache".toList, "Cache-dir".toList, "/c/".toList, 0, 0, [], true, false⟩
    ⟨"share".toList, "Share-dir".toList, "/s".toList, 0, 0, [], false, true⟩
    ⟨0, [], .zero, false⟩

def twoRequests : List Act :=
  [.round (requests ["a.mp3".toList] 1 2 1),
    .round (requests ["a.mp3".toList, "b.mp3".toList] 1 2 2)]

/-- The second song is still there when it is opened. -/
theorem kept_iff_second : ∃ s s' fobj stat,
    Machine.run step (requestsFrom "/q/".toList)
        [.round (requests ["a.mp3".toList] 1 2 1)] = some s ∧
      s.round (requests ["a.mp3".toList, "b.mp3".toList] 1 2 2) = .ok (s', .opens fobj stat) ∧
      fobj.name = "/q/b.mp3".toList ∧ (regular stat fobj.name).isSome := by
  have h := @kept_iff _ _ _ _ [.round (requests ["a.mp3".toList] 1 2 1)] _
    (rfl : Machine.run step (requestsFrom "/q/".toList) _ = some _)
    (requests ["a.mp3".toList, "b.mp3".toList] 1 2 2) _ _ _ rfl
  refine ⟨_, _, _, _, rfl, rfl, rfl, h.mpr ?_⟩
  rintro ⟨t, ht, hflag, -⟩
  cases ht

/-- The first song is requested once more after it has been touched, and is removed just before it
is opened. -/
theorem song_removed : ∃ s s' fobj stat,
    Machine.run step (requestsFrom "/q/".toList) twoRequests = some s ∧
      s.round (requests ["a.mp3".toList, "b.mp3".toList] 3 2 3) = .ok (s', .opens fobj stat) ∧
      fobj.name = "/q/a.mp3".toList ∧ regular stat fobj.name = none := by
  refine ⟨_, _, _, ((twoDirs 3 2).unlink (fun _ => true) "/q/a.mp3".toList).stat, rfl, rfl, rfl, ?_⟩
  show regular _ "/q/a.mp3".toList = none
  decide

end Player

end NetDJ.Daemon
